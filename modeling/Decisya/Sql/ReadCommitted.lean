import Mathlib.Logic.Function.Basic
import Mathlib.Data.List.Pairwise

/-!
# Transactions under READ COMMITTED

A table is a list of row versions, each with the transaction that inserted it and the one
that deleted it, if any. Committing and rolling back only change a transaction's status.
Rows of one unique key exclude one another: an insert that meets a version in doubt waits,
which here is a step that cannot be taken yet.

A savepoint is a number; what is written carries the number it was written under.
-/

namespace Sql

set_option autoImplicit false

inductive Status where
  | idle
  | active
  | committed
  | aborted
  deriving DecidableEq

/-- After an error a transaction is `failed` until it is rolled back, at least to a savepoint. -/
structure Tx where
  status : Status
  savepoint : ℕ
  failed : Bool
  deriving DecidableEq

def Tx.Ready (tx : Tx) : Prop := tx.status = .active ∧ tx.failed = false

structure Version (τ ρ : Type) where
  row : ρ
  xmin : τ
  cmin : ℕ
  xmax : Option (τ × ℕ)

/-- `commits` is the order of the commits, the last one first. -/
structure Db (τ ρ : Type) where
  versions : List (Version τ ρ)
  tx : τ → Tx
  commits : List τ

inductive Op (ρ : Type) where
  | begin
  | savepoint
  | rollbackTo
  | commit
  | rollback
  | query (p : ρ → Bool)
  | insert (row : ρ)
  | update (p : ρ → Bool) (f : ρ → ρ)
  | delete (p : ρ → Bool)

/-- A query gives rows, an update or a delete the number of rows it reached. -/
def Value (ρ : Type) : Op ρ → Type
  | .query _ => List ρ
  | .update _ _ => ℕ
  | .delete _ => ℕ
  | _ => Unit

/-- `other` is any exception that is no unique violation: a lost connection, a
cancellation, a deadlock. -/
inductive Error (κ : Type) where
  | unique (key : κ)
  | other
  deriving DecidableEq

abbrev Reply (ρ κ : Type) (o : Op ρ) : Type := Except (Error κ) (Value ρ o)

/-- The unique keys of a row, over all tables, and the check constraints. -/
structure Schema (ρ κ : Type) where
  keys : ρ → List κ
  check : ρ → Bool

section Db
variable {τ ρ κ : Type}

/-! ## Versions -/

namespace Version

/-- Deleted by a committed transaction, or inserted by one that rolled back. -/
def Dead (tx : τ → Tx) (v : Version τ ρ) : Prop :=
  (tx v.xmin).status = .aborted ∨ ∃ d ∈ v.xmax, (tx d.1).status = .committed

/-- What everyone sees. -/
def Committed (tx : τ → Tx) (v : Version τ ρ) : Prop :=
  (tx v.xmin).status = .committed ∧ ∀ d ∈ v.xmax, (tx d.1).status ≠ .committed

/-- What transaction `t` sees: committed rows and its own, without those it deleted. -/
def VisibleTo (tx : τ → Tx) (t : τ) (v : Version τ ρ) : Prop :=
  ((v.xmin = t ∧ (tx t).status = .active) ∨ (tx v.xmin).status = .committed) ∧
    ∀ d ∈ v.xmax, d.1 ≠ t ∧ (tx d.1).status ≠ .committed

/-- No other transaction that is still running deleted it. -/
def Unlocked (tx : τ → Tx) (v : Version τ ρ) : Prop := ∀ d ∈ v.xmax, (tx d.1).status ≠ .active

/-- Inserted by `t` under savepoint `n` or a later one. -/
def Since [DecidableEq τ] (t : τ) (n : ℕ) (v : Version τ ρ) : Prop := v.xmin = t ∧ n ≤ v.cmin

/-- As it was before `t` set savepoint `n`. -/
def restore [DecidableEq τ] (t : τ) (n : ℕ) (v : Version τ ρ) : Version τ ρ :=
  { v with xmax := v.xmax.filter fun d => decide ¬(d.1 = t ∧ n ≤ d.2) }

instance [DecidableEq τ] (t : τ) (n : ℕ) (v : Version τ ρ) : Decidable (v.Since t n) :=
  inferInstanceAs (Decidable (_ ∧ _))

instance (tx : τ → Tx) (v : Version τ ρ) : Decidable (v.Committed tx) :=
  inferInstanceAs (Decidable (_ ∧ _))

instance [DecidableEq τ] (tx : τ → Tx) (t : τ) (v : Version τ ρ) : Decidable (v.VisibleTo tx t) :=
  inferInstanceAs (Decidable (_ ∧ _))

end Version

namespace Db

def empty (τ ρ : Type) : Db τ ρ := ⟨[], fun _ => ⟨.idle, 0, false⟩, []⟩

variable [DecidableEq τ]

def setTx (db : Db τ ρ) (t : τ) (tx : Tx) : Db τ ρ := { db with tx := Function.update db.tx t tx }

/-- The rows of the tables as everyone sees them. -/
def visible (db : Db τ ρ) : List ρ :=
  (db.versions.filter fun v => decide (v.Committed db.tx)).map Version.row

def visibleTo (db : Db τ ρ) (t : τ) : List ρ :=
  (db.versions.filter fun v => decide (v.VisibleTo db.tx t)).map Version.row

def abort (db : Db τ ρ) (t : τ) : Db τ ρ :=
  if (db.tx t).status = .active then db.setTx t { db.tx t with status := .aborted } else db

def fail (db : Db τ ρ) (t : τ) : Db τ ρ :=
  if (db.tx t).status = .active then db.setTx t { db.tx t with failed := true } else db

def push (db : Db τ ρ) (t : τ) (rows : List ρ) : Db τ ρ :=
  { db with versions := db.versions ++ rows.map fun row => ⟨row, t, (db.tx t).savepoint, none⟩ }

/-- The versions of `t` that `p` selects. -/
def targets (db : Db τ ρ) (t : τ) (p : ρ → Bool) : List (Version τ ρ) :=
  db.versions.filter fun v => decide (v.VisibleTo db.tx t) && p v.row

def mark (db : Db τ ρ) (t : τ) (p : ρ → Bool) : Db τ ρ :=
  { db with versions := db.versions.map fun v =>
      if v.VisibleTo db.tx t ∧ p v.row = true then { v with xmax := some (t, (db.tx t).savepoint) }
      else v }

/-- What `t` wrote under savepoint `n` and later ones is gone. -/
def undoFrom (db : Db τ ρ) (t : τ) (n : ℕ) : Db τ ρ :=
  { db with versions := (db.versions.filter fun v => decide ¬v.Since t n).map (Version.restore t n) }

def undo (db : Db τ ρ) (t : τ) : Db τ ρ := db.undoFrom t (db.tx t).savepoint

/-- The tables as if `t` had never written. -/
def without (db : Db τ ρ) (t : τ) : Db τ ρ := db.undoFrom t 0

end Db

section Lemmas
variable [DecidableEq τ] (db : Db τ ρ) (t : τ)

@[simp] theorem Db.setTx_versions (tx : Tx) : (db.setTx t tx).versions = db.versions := rfl

@[simp] theorem Db.setTx_commits (tx : Tx) : (db.setTx t tx).commits = db.commits := rfl

@[simp] theorem Db.setTx_self (tx : Tx) : (db.setTx t tx).tx t = tx := Function.update_self _ _ _

theorem Db.setTx_ne (tx : Tx) {u : τ} (h : u ≠ t) : (db.setTx t tx).tx u = db.tx u :=
  Function.update_of_ne h _ _

@[simp] theorem Db.abort_versions : (db.abort t).versions = db.versions := by
  unfold Db.abort
  split <;> rfl

@[simp] theorem Db.abort_commits : (db.abort t).commits = db.commits := by
  unfold Db.abort
  split <;> rfl

theorem Db.abort_ne {u : τ} (h : u ≠ t) : (db.abort t).tx u = db.tx u := by
  unfold Db.abort
  split
  · exact Db.setTx_ne _ _ _ h
  · rfl

@[simp] theorem Db.fail_versions : (db.fail t).versions = db.versions := by
  unfold Db.fail
  split <;> rfl

@[simp] theorem Db.fail_commits : (db.fail t).commits = db.commits := by
  unfold Db.fail
  split <;> rfl

theorem Db.fail_ne {u : τ} (h : u ≠ t) : (db.fail t).tx u = db.tx u := by
  unfold Db.fail
  split
  · exact Db.setTx_ne _ _ _ h
  · rfl

end Lemmas

/-! ## Operations -/

section Run
variable [DecidableEq τ] (T : Schema ρ κ)

/-- Every version with a key of the row is dead or was deleted by `t` itself. -/
def Insertable (db : Db τ ρ) (t : τ) (row : ρ) : Prop :=
  ∀ k ∈ T.keys row, ∀ v ∈ db.versions, k ∈ T.keys v.row → ¬ v.Dead db.tx → ∃ n, v.xmax = some (t, n)

/-- A row of key `k` that is there for `t`, with no doubt about it. -/
def Conflicts (db : Db τ ρ) (t : τ) (k : κ) : Prop :=
  ∃ v ∈ db.versions, k ∈ T.keys v.row ∧ v.VisibleTo db.tx t ∧ v.Unlocked db.tx

/-- What `t` does to the tables by an operation that succeeds. A statement that would have
to wait for another transaction does not succeed yet. -/
def run (t : τ) : (o : Op ρ) → Db τ ρ → Value ρ o → Db τ ρ → Prop
  | .begin, s, _, s' => (s.tx t).status = .idle ∧ s' = s.setTx t ⟨.active, 0, false⟩
  | .savepoint, s, _, s' =>
    (s.tx t).Ready ∧ s' = s.setTx t { s.tx t with savepoint := (s.tx t).savepoint + 1 }
  | .rollbackTo, s, _, s' =>
    (s.tx t).status = .active ∧ s' = (s.undo t).setTx t { s.tx t with failed := false }
  | .commit, s, _, s' =>
    ((s.tx t).Ready ∧ s' = { s.setTx t { s.tx t with status := .committed } with
      commits := t :: s.commits }) ∨
    -- A commit of a failed transaction rolls it back.
    ((s.tx t).status = .active ∧ (s.tx t).failed = true ∧ s' = s.abort t)
  | .rollback, s, _, s' => s' = s.abort t
  | .query p, s, rows, s' =>
    ¬ ((s.tx t).status = .active ∧ (s.tx t).failed = true) ∧ rows = (s.visibleTo t).filter p ∧ s' = s
  | .insert row, s, _, s' =>
    (s.tx t).Ready ∧ T.check row = true ∧ Insertable T s t row ∧ s' = s.push t [row]
  | .update p f, s, n, s' =>
    (s.tx t).Ready ∧ (∀ v ∈ s.targets t p, v.Unlocked s.tx ∧ T.keys (f v.row) = T.keys v.row) ∧
      (∀ v ∈ s.targets t p, T.check (f v.row) = true) ∧
      n = (s.targets t p).length ∧
      s' = (s.mark t p).push t ((s.targets t p).map fun v => f v.row)
  | .delete p, s, n, s' =>
    (s.tx t).Ready ∧ (∀ v ∈ s.targets t p, v.Unlocked s.tx) ∧ n = (s.targets t p).length ∧
      s' = s.mark t p

/-- One operation of `t`: it succeeds; or it meets a row of its key; or it throws, having
done nothing, having failed or ended the transaction, or having succeeded unnoticed. -/
def exec (t : τ) (o : Op ρ) (s : Db τ ρ) (r : Reply ρ κ o) (s' : Db τ ρ) : Prop :=
  match r with
  | .ok v => run T t o s v s'
  | .error (.unique k) => ∃ row, o = .insert row ∧ k ∈ T.keys row ∧ (s.tx t).Ready ∧
      Conflicts T s t k ∧ s' = s.fail t
  | .error .other => s' = s ∨ s' = s.fail t ∨ s' = s.abort t ∨ ∃ v, run T t o s v s'

end Run

/-! ## What everyone sees changes at commits only -/

section Visible

/-- Neither or both are committed. -/
abbrev SameOutcome (a b : Tx) : Prop := a.status = .committed ↔ b.status = .committed

theorem Version.committed_congr {tx tx' : τ → Tx} (h : ∀ u, SameOutcome (tx u) (tx' u))
    (v : Version τ ρ) : v.Committed tx ↔ v.Committed tx' := by
  refine and_congr (h v.xmin) ?_
  constructor
  · intro hd d hdx hc
    exact hd d hdx ((h d.1).mpr hc)
  · intro hd d hdx hc
    exact hd d hdx ((h d.1).mp hc)

theorem Db.visible_congr {s s' : Db τ ρ} (hv : s'.versions = s.versions)
    (h : ∀ u, SameOutcome (s'.tx u) (s.tx u)) : s'.visible = s.visible := by
  unfold Db.visible
  rw [hv]
  simp only [Version.committed_congr h]

variable [DecidableEq τ]

theorem Db.sameOutcome_setTx {s : Db τ ρ} {t : τ} {tx : Tx} (h : SameOutcome tx (s.tx t)) (u : τ) :
    SameOutcome ((s.setTx t tx).tx u) (s.tx u) := by
  by_cases hu : u = t
  · subst hu
    simpa using h
  · rw [Db.setTx_ne _ _ _ hu]

theorem Db.visible_setTx {s : Db τ ρ} {t : τ} {tx : Tx} (h : SameOutcome tx (s.tx t)) :
    (s.setTx t tx).visible = s.visible :=
  Db.visible_congr rfl (Db.sameOutcome_setTx h)

theorem Db.visible_abort (s : Db τ ρ) (t : τ) : (s.abort t).visible = s.visible := by
  unfold Db.abort
  split
  · rename_i h
    exact Db.visible_setTx (by simp [SameOutcome, h])
  · rfl

theorem Db.visible_fail (s : Db τ ρ) (t : τ) : (s.fail t).visible = s.visible := by
  unfold Db.fail
  split
  · exact Db.visible_setTx (by simp [SameOutcome])
  · rfl

omit [DecidableEq τ] in
theorem Db.visible_push {s : Db τ ρ} {t : τ} (h : (s.tx t).status = .active) (rows : List ρ) :
    (s.push t rows).visible = s.visible := by
  have hnone : (rows.map fun row => (⟨row, t, (s.tx t).savepoint, none⟩ : Version τ ρ)).filter
      (fun v => decide (v.Committed s.tx)) = [] := by
    rw [List.filter_eq_nil_iff]
    intro v hv
    obtain ⟨row, -, rfl⟩ := List.mem_map.mp hv
    simp [Version.Committed, h]
  unfold Db.visible Db.push
  rw [List.filter_append, hnone, List.append_nil]

omit [DecidableEq τ] in
/-- Rewriting versions to ones equally committed, with the same rows, changes nothing seen. -/
theorem filter_map_row {p q : Version τ ρ → Bool} {f : Version τ ρ → Version τ ρ}
    {l : List (Version τ ρ)} (hrow : ∀ v, (f v).row = v.row) (h : ∀ v ∈ l, p (f v) = q v) :
    ((l.map f).filter p).map Version.row = (l.filter q).map Version.row := by
  induction l with
  | nil => rfl
  | cons v l ih =>
    have hv := h v List.mem_cons_self
    have hl := ih fun w hw => h w (List.mem_cons_of_mem v hw)
    rw [List.map_cons, List.filter_cons, List.filter_cons, hv]
    split
    · rw [List.map_cons, List.map_cons, hrow, hl]
    · exact hl

theorem Db.visible_mark {s : Db τ ρ} {t : τ} (h : (s.tx t).status = .active) (p : ρ → Bool) :
    (s.mark t p).visible = s.visible := by
  refine filter_map_row (fun v => ?_) (fun v _ => ?_)
  · split <;> rfl
  · rw [decide_eq_decide]
    change Version.Committed s.tx _ ↔ _
    split
    · rename_i hv
      unfold Version.Committed
      constructor
      · intro hc
        exact ⟨hc.1, fun d hd => (hv.1.2 d hd).2⟩
      · intro hc
        refine ⟨hc.1, fun d hd => ?_⟩
        cases hd
        simp [h]
    · rfl

theorem Db.visible_undoFrom {s : Db τ ρ} {t : τ} (h : (s.tx t).status ≠ .committed) (n : ℕ) :
    (s.undoFrom t n).visible = s.visible := by
  have hkept : ((s.versions.filter fun v => decide ¬v.Since t n).filter fun v =>
      decide (v.Committed s.tx)) = s.versions.filter fun v => decide (v.Committed s.tx) := by
    rw [List.filter_filter]
    apply List.filter_congr
    intro v _
    by_cases hv : v.xmin = t
    · simp [Version.Committed, hv, h]
    · simp [Version.Since, hv]
  have hrestore : ∀ v : Version τ ρ, (v.restore t n).Committed s.tx ↔ v.Committed s.tx := by
    intro v
    refine and_congr_right fun _ => ?_
    constructor
    · intro hd d hdx
      by_cases heq : d.1 = t
      · rw [heq]
        exact h
      · exact hd d (by simp [Version.restore, Option.mem_def.mp hdx, heq])
    · intro hd d hdx
      refine hd d ?_
      simp only [Version.restore, Option.mem_def, Option.filter_eq_some_iff] at hdx
      exact hdx.1
  unfold Db.visible
  rw [← hkept]
  refine filter_map_row (fun v => rfl) (fun v _ => ?_)
  rw [decide_eq_decide]
  exact hrestore v

theorem Db.visible_undo {s : Db τ ρ} {t : τ} (h : (s.tx t).status = .active) :
    (s.undo t).visible = s.visible :=
  Db.visible_undoFrom (by rw [h]; exact Status.noConfusion) _

/-- Everyone sees the tables as if a transaction that did not commit had never written. -/
theorem Db.visible_without {s : Db τ ρ} {t : τ} (h : (s.tx t).status ≠ .committed) :
    (s.without t).visible = s.visible :=
  Db.visible_undoFrom h 0

end Visible

/-! ## A run without failures -/

section Answer
variable [DecidableEq τ]

instance (tx : Tx) : Decidable tx.Ready := inferInstanceAs (Decidable (_ ∧ _))

instance (tx : τ → Tx) (v : Version τ ρ) : Decidable (v.Dead tx) := inferInstanceAs (Decidable (_ ∨ _))

instance (tx : τ → Tx) (v : Version τ ρ) : Decidable (v.Unlocked tx) :=
  inferInstanceAs (Decidable (∀ d ∈ v.xmax, _))

def Version.deletedBy (v : Version τ ρ) (t : τ) : Bool := decide (v.xmax.map Prod.fst = some t)

theorem Version.deletedBy_eq_true {v : Version τ ρ} {t : τ} :
    v.deletedBy t = true ↔ ∃ n, v.xmax = some (t, n) := by
  simp [Version.deletedBy]

variable [DecidableEq κ] (T : Schema ρ κ)

def insertable (db : Db τ ρ) (t : τ) (row : ρ) : Bool :=
  (T.keys row).all fun k => db.versions.all fun v =>
    decide (k ∉ T.keys v.row) || decide (v.Dead db.tx) || v.deletedBy t

theorem insertable_eq_true {db : Db τ ρ} {t : τ} {row : ρ} (h : insertable T db t row = true) :
    Insertable T db t row := by
  intro k hk v hv hkv halive
  have hall := List.all_eq_true.mp (List.all_eq_true.mp h k hk) v hv
  simp only [Bool.or_eq_true, decide_eq_true_eq] at hall
  rcases hall with (hnone | hdead) | hdeleted
  · exact absurd hkv hnone
  · exact absurd hdead halive
  · exact Version.deletedBy_eq_true.mp hdeleted

/-- An operation of `t` that succeeds, where it can now. -/
def answer (t : τ) : (o : Op ρ) → Db τ ρ → Option (Value ρ o × Db τ ρ)
  | .begin, s => if (s.tx t).status = .idle then some ((), s.setTx t ⟨.active, 0, false⟩) else none
  | .savepoint, s =>
    if (s.tx t).Ready then
      some ((), s.setTx t { s.tx t with savepoint := (s.tx t).savepoint + 1 })
    else none
  | .rollbackTo, s =>
    if (s.tx t).status = .active then some ((), (s.undo t).setTx t { s.tx t with failed := false })
    else none
  | .commit, s =>
    if (s.tx t).Ready then
      some ((), { s.setTx t { s.tx t with status := .committed } with commits := t :: s.commits })
    else none
  | .rollback, s => some ((), s.abort t)
  | .query p, s =>
    if (s.tx t).status = .active ∧ (s.tx t).failed = true then none
    else some ((s.visibleTo t).filter p, s)
  | .insert row, s =>
    if (s.tx t).Ready ∧ T.check row = true ∧ insertable T s t row = true then
      some ((), s.push t [row])
    else none
  | .update p f, s =>
    if (s.tx t).Ready ∧ (∀ v ∈ s.targets t p, v.Unlocked s.tx ∧ T.keys (f v.row) = T.keys v.row) ∧
        ∀ v ∈ s.targets t p, T.check (f v.row) = true then
      some ((s.targets t p).length,
        (s.mark t p).push t ((s.targets t p).map fun v => f v.row))
    else none
  | .delete p, s =>
    if (s.tx t).Ready ∧ ∀ v ∈ s.targets t p, v.Unlocked s.tx then
      some ((s.targets t p).length, s.mark t p)
    else none

theorem run_of_answer {t : τ} {o : Op ρ} {s s' : Db τ ρ} {v : Value ρ o}
    (h : answer T t o s = some (v, s')) : run T t o s v s' := by
  cases o with
  | rollback => exact (Prod.mk.inj (Option.some.inj h)).2.symm
  | query p =>
    obtain ⟨hready, hsome⟩ := Option.ite_none_left_eq_some.mp h
    obtain ⟨hv, hs⟩ := Prod.mk.inj (Option.some.inj hsome)
    exact ⟨hready, hv.symm, hs.symm⟩
  | begin =>
    obtain ⟨hidle, hsome⟩ := Option.ite_none_right_eq_some.mp h
    exact ⟨hidle, (Prod.mk.inj (Option.some.inj hsome)).2.symm⟩
  | savepoint =>
    obtain ⟨hready, hsome⟩ := Option.ite_none_right_eq_some.mp h
    exact ⟨hready, (Prod.mk.inj (Option.some.inj hsome)).2.symm⟩
  | rollbackTo =>
    obtain ⟨hactive, hsome⟩ := Option.ite_none_right_eq_some.mp h
    exact ⟨hactive, (Prod.mk.inj (Option.some.inj hsome)).2.symm⟩
  | commit =>
    obtain ⟨hready, hsome⟩ := Option.ite_none_right_eq_some.mp h
    exact .inl ⟨hready, (Prod.mk.inj (Option.some.inj hsome)).2.symm⟩
  | insert row =>
    obtain ⟨⟨hready, hcheck, hfree⟩, hsome⟩ := Option.ite_none_right_eq_some.mp h
    exact ⟨hready, hcheck, insertable_eq_true T hfree, (Prod.mk.inj (Option.some.inj hsome)).2.symm⟩
  | update p f =>
    obtain ⟨⟨hready, hfree, hcheck⟩, hsome⟩ := Option.ite_none_right_eq_some.mp h
    obtain ⟨hv, hs⟩ := Prod.mk.inj (Option.some.inj hsome)
    exact ⟨hready, hfree, hcheck, hv.symm, hs.symm⟩
  | delete p =>
    obtain ⟨⟨hready, hfree⟩, hsome⟩ := Option.ite_none_right_eq_some.mp h
    obtain ⟨hv, hs⟩ := Prod.mk.inj (Option.some.inj hsome)
    exact ⟨hready, hfree, hv.symm, hs.symm⟩

end Answer

end Db

end Sql
