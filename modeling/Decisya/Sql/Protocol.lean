import Decisya.Concurrency.RelyGuarantee
import Decisya.Sql.Frames

/-!
# What interleaved transactions promise one another

Rows of kind `q` are neither updated nor deleted by anyone. A transaction that commits has
inserted, of that kind, the rows its code is to insert. Others may only end a transaction,
and what everyone sees changes at commits.
-/

namespace Sql

open Concurrency

set_option autoImplicit false

section Protocol
variable {τ ρ κ : Type} [DecidableEq τ] {T : Schema ρ κ} {q : ρ → Bool} {record : τ → List ρ → Prop}
  {s s' : Db τ ρ} {t u : τ}

structure Inv (T : Schema ρ κ) (q : ρ → Bool) (record : τ → List ρ → Prop) (s : Db τ ρ) : Prop where
  consistent : Consistent T s
  untouched : Untouched s q
  recorded : ∀ u, (s.tx u).status = .committed → record u (s.own q u)

/-- What others may do to transaction `t`: end it, while it is open. -/
structure Rely (q : ρ → Bool) (t : τ) (s s' : Db τ ρ) : Prop where
  own : s'.own q t = s.own q t
  tx : s'.tx t = s.tx t ∨
    (s.tx t).status = .active ∧ s'.tx t = { s.tx t with status := .aborted }
  commits : ∀ u ∈ s.commits, u ∈ s'.commits

/-- What everyone sees changes at commits. -/
def Guar (s s' : Db τ ρ) : Prop := Quiet s s' ∨ ∃ t, s'.commits = t :: s.commits

def protocol (T : Schema ρ κ) (q : ρ → Bool) (record : τ → List ρ → Prop) : Protocol τ (Db τ ρ) where
  inv := Inv T q record
  guar := Guar
  rely := Rely q

/-- Not committed. -/
def Open (t : τ) (s : Db τ ρ) : Prop := (s.tx t).status ≠ .committed

omit [DecidableEq τ] in
theorem Open.of_status (h : (s.tx t).status = .active ∨ (s.tx t).status = .idle) : Open t s := by
  unfold Open
  rcases h with h | h
  · rw [h]
    exact Status.noConfusion
  · rw [h]
    exact Status.noConfusion

theorem Rely.refl (q : ρ → Bool) (t : τ) (s : Db τ ρ) : Rely q t s s := ⟨rfl, .inl rfl, fun _ h => h⟩

theorem Rely.open_ (h : Rely q t s s') (hs : Open t s) : Open t s' := by
  unfold Open at hs ⊢
  rcases h.tx with heq | ⟨-, heq⟩
  · rwa [heq]
  · rw [heq]
    exact Status.noConfusion

/-- A transaction that met no error while it was open has met none still. -/
theorem Rely.unfailed (h : Rely q t s s') (hs : (s.tx t).status = .active → (s.tx t).failed = false)
    (hactive : (s'.tx t).status = .active) : (s'.tx t).failed = false := by
  rcases h.tx with heq | ⟨-, heq⟩
  · rw [heq] at hactive ⊢
    exact hs hactive
  · rw [heq] at hactive
    cases hactive

/-- One that failed is not usable again. -/
theorem Rely.failed (h : Rely q t s s') (hs : (s.tx t).status = .active → (s.tx t).failed = true)
    (hactive : (s'.tx t).status = .active) : (s'.tx t).failed = true := by
  rcases h.tx with heq | ⟨-, heq⟩
  · rw [heq] at hactive ⊢
    exact hs hactive
  · rw [heq] at hactive
    cases hactive

theorem Rely.committed (h : Rely q t s s') (hs : (s.tx t).status = .committed) :
    (s'.tx t).status = .committed := by
  rcases h.tx with heq | ⟨hactive, -⟩
  · rw [heq]
    exact hs
  · rw [hs] at hactive
    cases hactive

theorem open_stable : (protocol T q record).Stable t (Open t) := fun _ _ hs h => Rely.open_ h hs

theorem guar_of_exec {o : Op ρ} {r : Reply ρ κ o} (h : Sql.exec T t o s r s') : Guar s s' := by
  rcases exec_quiet h with hquiet | ⟨-, -, rfl⟩
  · exact .inl hquiet
  · exact .inr ⟨t, rfl⟩

theorem commits_of_exec {o : Op ρ} {r : Reply ρ κ o} (h : Sql.exec T t o s r s') :
    ∀ u ∈ s.commits, u ∈ s'.commits := by
  rcases exec_quiet h with hquiet | ⟨-, -, rfl⟩
  · intro u hu
    rwa [hquiet.commits]
  · intro u hu
    exact List.mem_cons_of_mem t hu

theorem rely_of_exec {o : Op ρ} {r : Reply ρ κ o} (hspares : o.Spares q) (h : Sql.exec T t o s r s')
    (hu : u ≠ t) : Rely q u s s' := by
  obtain ⟨htx, hown⟩ := exec_ne hspares h hu
  exact ⟨hown, .inl htx, commits_of_exec h⟩

/-- An operation keeps the protocol if its transaction has its rows once it is committed. -/
theorem keeps_of_exec {o : Op ρ} {r : Reply ρ κ o} (hinv : Inv T q record s) (hspares : o.Spares q)
    (h : Sql.exec T t o s r s')
    (hrecord : (s'.tx t).status = .committed → record t (s'.own q t)) :
    (protocol T q record).Keeps t s s' := by
  refine ⟨⟨hinv.consistent.exec h, hinv.untouched.exec hspares h, fun u hu => ?_⟩, guar_of_exec h,
    fun u hu => rely_of_exec hspares h hu⟩
  by_cases heq : u = t
  · subst heq
    exact hrecord hu
  · obtain ⟨htx, hown⟩ := exec_ne hspares h heq
    rw [htx] at hu
    rw [hown]
    exact hinv.recorded u hu

theorem keeps_of_open {o : Op ρ} {r : Reply ρ κ o} (hinv : Inv T q record s) (hspares : o.Spares q)
    (ho : o ≠ .commit) (hopen : Open t s) (h : Sql.exec T t o s r s') :
    (protocol T q record).Keeps t s s' ∧ Open t s' := by
  have hopen' := exec_not_committed hinv.consistent hopen ho h
  exact ⟨keeps_of_exec hinv hspares h fun hc => absurd hc hopen', hopen'⟩

theorem keeps_refl (hinv : Inv T q record s) : (protocol T q record).Keeps t s s :=
  ⟨hinv, .inl (.refl s), fun u _ => .refl q u s⟩

/-- A commit of a transaction that has its rows and met no error. -/
theorem keeps_of_commit (hinv : Inv T q record s) (hopen : Open t s)
    (hready : (s.tx t).status = .active → (s.tx t).failed = false) (hrecord : record t (s.own q t))
    {x : Reply ρ κ .commit} (h : Sql.exec T t .commit s x s') :
    (protocol T q record).Keeps t s s' ∧
      (Open t s' ∧ (∀ v, x ≠ .ok v) ∨ (s'.tx t).status = .committed ∧ record t (s'.own q t)) := by
  rcases exec_quiet h with hquiet | ⟨-, -, rfl⟩
  · -- The commit did nothing or ended the transaction.
    have hopen' : Open t s' := by
      intro hc
      have hmem := ((hinv.consistent.exec h).logged t).mpr hc
      rw [hquiet.commits] at hmem
      exact hopen ((hinv.consistent.logged t).mp hmem)
    refine ⟨keeps_of_exec hinv (o := .commit) trivial h fun hc => absurd hc hopen', .inl ⟨hopen', ?_⟩⟩
    intro v hv
    subst hv
    rcases h with ⟨-, rfl⟩ | ⟨hactive, hfailed, -⟩
    · exact absurd (by simp) hopen'
    · rw [hready hactive] at hfailed
      cases hfailed
  · refine ⟨keeps_of_exec hinv (o := .commit) trivial h fun _ => hrecord, .inr ⟨?_, hrecord⟩⟩
    simp

/-- A roll back on the way out changes nothing of a committed transaction. -/
theorem rollback_committed {y : Reply ρ κ .rollback} (hc : (s.tx t).status = .committed)
    (h : Sql.exec T t .rollback s y s') : s' = s := by
  have habort : s.abort t = s := by simp [Db.abort, hc]
  have hfail : s.fail t = s := by simp [Db.fail, hc]
  cases y with
  | ok v => exact Eq.trans h habort
  | error e =>
    cases e with
    | unique k =>
      obtain ⟨row, hinsert, -⟩ := h
      cases hinsert
    | other =>
      rcases h with heq | heq | heq | ⟨v, hrun⟩
      · exact heq
      · exact heq.trans hfail
      · exact heq.trans habort
      · exact Eq.trans hrun habort

theorem abort_not_active (s : Db τ ρ) (t : τ) : ((s.abort t).tx t).status ≠ .active := by
  unfold Db.abort
  split
  · rw [Db.setTx_self]
    exact Status.noConfusion
  · rename_i hinactive
    exact hinactive

/-- Nor does it make a failed transaction usable. -/
theorem rollback_failed {y : Reply ρ κ .rollback} (hs : (s.tx t).status = .active → (s.tx t).failed = true)
    (h : Sql.exec T t .rollback s y s') (hactive : (s'.tx t).status = .active) :
    (s'.tx t).failed = true := by
  have habort : s' = s.abort t → (s'.tx t).failed = true := by
    intro heq
    rw [heq] at hactive
    exact absurd hactive (abort_not_active s t)
  cases y with
  | ok v => exact habort h
  | error e =>
    cases e with
    | unique k =>
      obtain ⟨row, hinsert, -⟩ := h
      cases hinsert
    | other =>
      rcases h with heq | heq | heq | ⟨v, hrun⟩
      · rw [heq] at hactive ⊢
        exact hs hactive
      · rw [heq]
        rw [heq] at hactive
        unfold Db.fail at hactive ⊢
        split at hactive
        · rename_i hopen
          rw [if_pos hopen, Db.setTx_self]
        · rename_i hclosed
          exact absurd hactive hclosed
      · exact habort heq
      · exact habort hrun

theorem inv_empty : Inv T q record (Db.empty τ ρ) where
  consistent := Consistent.empty T
  untouched := fun _ hv => absurd hv List.not_mem_nil
  recorded := fun _ hu => Status.noConfusion hu

theorem keepsAll_abort (u : τ) (hinv : Inv T q record s) :
    (protocol T q record).KeepsAll s (s.abort u) := by
  have hown : ∀ t, (s.abort u).own q t = s.own q t := own_congr (Db.abort_versions s u)
  have htx : ∀ t, (s.abort u).tx t = s.tx t ∨ (s.tx t).status = .active ∧
      (s.abort u).tx t = { s.tx t with status := .aborted } := by
    intro t
    unfold Db.abort
    split
    · rename_i hactive
      by_cases heq : t = u
      · subst heq
        exact .inr ⟨hactive, Db.setTx_self _ _ _⟩
      · exact .inl (Db.setTx_ne _ _ _ heq)
    · exact .inl rfl
  have hcommits : ∀ t ∈ s.commits, t ∈ (s.abort u).commits := by
    intro t ht
    rwa [Db.abort_commits]
  refine ⟨⟨hinv.consistent.abort, hinv.untouched.congr (Db.abort_versions s u), ?_⟩,
    .inl (.abort s u), fun t => ⟨hown t, htx t, hcommits⟩⟩
  intro t ht
  rw [hown]
  rcases htx t with heq | ⟨-, heq⟩
  · rw [heq] at ht
    exact hinv.recorded t ht
  · rw [heq] at ht
    cases ht

end Protocol

end Sql
