import Decisya.Concurrency.Program

/-!
# Rely-guarantee rules for interleaved code

`inv` is an invariant of the shared state, `guar` bounds every single step, and
`rely t` bounds what the rest of the system may do between two operations of thread
`t`. A triple for one thread asks of each of its operations that it keeps `inv`, is a
`guar` step and stays inside every other thread's `rely`; `sound` puts the threads
together.
-/

namespace Concurrency

set_option autoImplicit false

variable {Tid Op : Type} {Res : Op → Type} {Ev σ E α β : Type}

/-- What the threads of a system promise one another. -/
structure Protocol (Tid σ : Type) where
  inv : σ → Prop
  guar : σ → σ → Prop
  rely : Tid → σ → σ → Prop

namespace Protocol
variable (P : Protocol Tid σ) (S : System Tid Op Res Ev σ)

/-- What the other threads and the environment may have done meanwhile. -/
abbrev Meanwhile (t : Tid) : σ → σ → Prop := Relation.ReflTransGen (P.rely t)

/-- One operation of `t` keeps the protocol. -/
structure Keeps (t : Tid) (s s' : σ) : Prop where
  inv : P.inv s'
  guar : P.guar s s'
  rely : ∀ u, u ≠ t → P.rely u s s'

/-- So does an event of the environment. -/
structure KeepsAll (s s' : σ) : Prop where
  inv : P.inv s'
  guar : P.guar s s'
  rely : ∀ u, P.rely u s s'

theorem KeepsAll.keeps {P : Protocol Tid σ} {s s' : σ} (h : P.KeepsAll s s') (t : Tid) :
    P.Keeps t s s' := ⟨h.inv, h.guar, fun u _ => h.rely u⟩

/-- From `s`, every run of the code among well-behaved others is well behaved itself
and ends, if it ends, as `Q` says. -/
def wp (t : Tid) : Prog Op Res E α → (Except E α → σ → Prop) → σ → Prop
  | .ret a, Q, s => Q (.ok a) s
  | .raise e, Q, s => Q (.error e) s
  | .call o k, Q, s => ∀ s₁, P.Meanwhile t s s₁ → P.inv s₁ → ∀ r s₂, S.exec t o s₁ r s₂ →
      P.Keeps t s₁ s₂ ∧ wp t (k r) Q s₂

def Triple (t : Tid) (A : σ → Prop) (p : Prog Op Res E α) (Q : Except E α → σ → Prop) : Prop :=
  ∀ s, A s → P.wp S t p Q s

/-- `A` survives what the others may do. -/
def Stable (t : Tid) (A : σ → Prop) : Prop := ∀ s s', A s → P.rely t s s' → A s'

variable {P S} {t : Tid}

theorem Stable.meanwhile {A : σ → Prop} (hA : P.Stable t A) {s s' : σ}
    (h : P.Meanwhile t s s') (hs : A s) : A s' := by
  induction h with
  | refl => exact hs
  | tail _ hr ih => exact hA _ _ ih hr

theorem Stable.and {A B : σ → Prop} (hA : P.Stable t A) (hB : P.Stable t B) :
    P.Stable t fun s => A s ∧ B s :=
  fun s s' h hr => ⟨hA s s' h.1 hr, hB s s' h.2 hr⟩

theorem stable_const (p : Prop) : P.Stable t fun _ : σ => p := fun _ _ h _ => h

theorem wp_mono {p : Prog Op Res E α} {Q Q' : Except E α → σ → Prop}
    (hQ : ∀ x s, Q x s → Q' x s) {s : σ} (h : P.wp S t p Q s) : P.wp S t p Q' s := by
  induction p generalizing s with
  | ret a => exact hQ _ _ h
  | raise e => exact hQ _ _ h
  | call o k ih =>
    intro s₁ hm hi r s₂ hx
    obtain ⟨hk, hw⟩ := h s₁ hm hi r s₂ hx
    exact ⟨hk, ih r hw⟩

theorem wp_bind {p : Prog Op Res E α} {f : α → Prog Op Res E β} {Q : Except E β → σ → Prop}
    {s : σ} (h : P.wp S t p (fun x s' => match x with
      | .ok a => P.wp S t (f a) Q s'
      | .error e => Q (.error e) s') s) : P.wp S t (p.bind f) Q s := by
  induction p generalizing s with
  | ret a => exact h
  | raise e => exact h
  | call o k ih =>
    intro s₁ hm hi r s₂ hx
    obtain ⟨hk, hw⟩ := h s₁ hm hi r s₂ hx
    exact ⟨hk, ih r hw⟩

/-- What a `finally` block that ends as `y` leaves of the outcome `x`. -/
def finallyPost (Q : Except E α → σ → Prop) (x : Except E α) : Except E Unit → σ → Prop
  | .ok _, s => Q x s
  | .error e, s => Q (.error e) s

theorem wp_tryFinally {p : Prog Op Res E α} {f : Prog Op Res E Unit}
    {Q : Except E α → σ → Prop} {s : σ}
    (h : P.wp S t p (fun x s' => P.wp S t f (finallyPost Q x) s') s) :
    P.wp S t (p.tryFinally f) Q s := by
  induction p generalizing s with
  | ret a =>
    change P.wp S t f (finallyPost Q (.ok a)) s at h
    apply wp_bind
    apply wp_mono _ h
    intro x s' hx
    cases x <;> exact hx
  | raise e =>
    change P.wp S t f (finallyPost Q (.error e)) s at h
    apply wp_bind
    apply wp_mono _ h
    intro x s' hx
    cases x <;> exact hx
  | call o k ih =>
    intro s₁ hm hi r s₂ hx
    obtain ⟨hk, hw⟩ := h s₁ hm hi r s₂ hx
    exact ⟨hk, ih r hw⟩

theorem wp_attempt {E' : Type} {p : Prog Op Res E α} {Q : Except E' (Except E α) → σ → Prop} {s : σ}
    (h : P.wp S t p (fun x => Q (.ok x)) s) : P.wp S t (p.attempt : Prog Op Res E' (Except E α)) Q s := by
  induction p generalizing s with
  | ret a => exact h
  | raise e => exact h
  | call o k ih =>
    intro s₁ hm hi r s₂ hx
    obtain ⟨hk, hw⟩ := h s₁ hm hi r s₂ hx
    exact ⟨hk, ih r hw⟩

namespace Triple
variable {A A' : σ → Prop} {Q Q' : Except E α → σ → Prop}

theorem conseq {p : Prog Op Res E α} (h : P.Triple S t A p Q) (hA : ∀ s, A' s → A s)
    (hQ : ∀ x s, Q x s → Q' x s) : P.Triple S t A' p Q' :=
  fun s hs => wp_mono hQ (h s (hA s hs))

theorem ret {a : α} (h : ∀ s, A s → Q (.ok a) s) :
    P.Triple S t A (.ret a : Prog Op Res E α) Q := h

theorem raise {e : E} (h : ∀ s, A s → Q (.error e) s) :
    P.Triple S t A (.raise e : Prog Op Res E α) Q := h

/-- The rule for one operation: `A` is stable, the operation keeps the protocol from
every state of `A`, and `B r` describes the state after reply `r`. -/
theorem call {o : Op} {k : Res o → Prog Op Res E α} (B : Res o → σ → Prop)
    (hA : P.Stable t A)
    (hop : ∀ s r s', P.inv s → A s → S.exec t o s r s' → P.Keeps t s s' ∧ B r s')
    (hk : ∀ r, P.Triple S t (B r) (k r) Q) : P.Triple S t A (.call o k) Q := by
  intro s hs s₁ hm hi r s₂ hx
  obtain ⟨hkeep, hB⟩ := hop s₁ r s₂ hi (hA.meanwhile hm hs) hx
  exact ⟨hkeep, hk r s₂ hB⟩

/-- `R` is what holds between the two parts. -/
theorem bind {p : Prog Op Res E α} {f : α → Prog Op Res E β} (R : Except E α → σ → Prop)
    {Q : Except E β → σ → Prop} (hp : P.Triple S t A p R)
    (hf : ∀ a, P.Triple S t (R (.ok a)) (f a) Q) (he : ∀ e s, R (.error e) s → Q (.error e) s) :
    P.Triple S t A (p.bind f) Q := by
  intro s hs
  apply wp_bind
  apply wp_mono _ (hp s hs)
  intro x s' hx
  cases x with
  | ok a => exact hf a s' hx
  | error e => exact he e s' hx

theorem perform {o : Op} {R : Except E (Res o) → σ → Prop} (hA : P.Stable t A)
    (hop : ∀ s r s', P.inv s → A s → S.exec t o s r s' → P.Keeps t s s' ∧ R (.ok r) s') :
    P.Triple S t A (Prog.perform o) R :=
  Triple.call (fun r => R (.ok r)) hA hop fun _ => Triple.ret fun _ h => h

theorem ofExcept {x : Except E α} (h : ∀ s, A s → Q x s) :
    P.Triple S t A (Prog.ofExcept x : Prog Op Res E α) Q := by
  cases x with
  | ok a => exact Triple.ret h
  | error e => exact Triple.raise h

theorem tryFinally {p : Prog Op Res E α} {f : Prog Op Res E Unit} (R : Except E α → σ → Prop)
    (hp : P.Triple S t A p R)
    (hf : ∀ x, P.Triple S t (R x) f (finallyPost Q x)) : P.Triple S t A (p.tryFinally f) Q := by
  intro s hs
  apply wp_tryFinally
  exact wp_mono (fun x s' hx => hf x s' hx) (hp s hs)

theorem attempt {E' : Type} {p : Prog Op Res E α} {Q : Except E' (Except E α) → σ → Prop}
    (h : P.Triple S t A p fun x => Q (.ok x)) :
    P.Triple S t A (p.attempt : Prog Op Res E' (Except E α)) Q :=
  fun s hs => wp_attempt (h s hs)

/-- A `try` whose outcome `f` looks at. -/
theorem attempt_bind {E' : Type} {p : Prog Op Res E α} {f : Except E α → Prog Op Res E' β}
    (R : Except E α → σ → Prop) {Q : Except E' β → σ → Prop} (hp : P.Triple S t A p R)
    (hf : ∀ x, P.Triple S t (R x) (f x) Q) : P.Triple S t A (p.attempt.bind f) Q := by
  intro s hs
  apply wp_bind
  apply wp_attempt
  exact wp_mono (fun x s' hx => hf x s' hx) (hp s hs)

theorem of_false {p : Prog Op Res E α} (h : ∀ s, ¬ A s) : P.Triple S t A p Q :=
  fun s hs => absurd hs (h s)

theorem of_exists {ι : Type} {A : ι → σ → Prop} {p : Prog Op Res E α}
    (h : ∀ i, P.Triple S t (A i) p Q) : P.Triple S t (fun s => ∃ i, A i s) p Q := by
  intro s hs
  obtain ⟨i, hi⟩ := hs
  exact h i s hi

/-- Code all of whose operations keep the protocol and `A` needs no outline. -/
theorem of_performs {p : Prog Op Res E α} {ψ : α → Prop} (hA : P.Stable t A)
    (h : p.Performs (fun o => ∀ s r s', P.inv s → A s → S.exec t o s r s' →
      P.Keeps t s s' ∧ A s') ψ) :
    P.Triple S t A p fun x s => A s ∧ ∀ a, x = .ok a → ψ a := by
  induction p with
  | ret a =>
    refine Triple.ret fun s hs => ⟨hs, fun a' ha => ?_⟩
    obtain rfl := Except.ok.inj ha
    exact h
  | raise e => exact Triple.raise fun _ hs => ⟨hs, fun _ ha => nomatch ha⟩
  | call o k ih => exact Triple.call (fun _ => A) hA h.1 fun r => ih r (h.2 r)

/-- Where every operation of the thread keeps the protocol, so does any code. -/
theorem of_keeps (h : ∀ o s r s', P.inv s → S.exec t o s r s' → P.Keeps t s s')
    (p : Prog Op Res E α) : P.Triple S t (fun _ => True) p fun _ _ => True := by
  induction p with
  | ret a => exact Triple.ret fun _ _ => trivial
  | raise e => exact Triple.raise fun _ _ => trivial
  | call o k ih =>
    refine Triple.call (fun _ _ => True) (stable_const True) ?_ ih
    exact fun s r s' hi _ hx => ⟨h o s r s' hi hx, trivial⟩

/-- A hypothesis that the state does not change is used outside the triple. -/
theorem of_pure {p : Prog Op Res E α} {φ : Prop} (hA : ∀ s, A s → φ)
    (h : φ → P.Triple S t A p Q) : P.Triple S t A p Q :=
  fun s hs => h (hA s hs) s hs

end Triple

variable {Q : Tid → Except E α → σ → Prop}

/-- What `sound` carries through a run: each thread stands in code that is safe from a
state its `rely` connects to the present one. -/
def Ok (P : Protocol Tid σ) (S : System Tid Op Res Ev σ) (Q : Tid → Except E α → σ → Prop)
    (c : Config Tid Op Res E α σ) : Prop :=
  P.inv c.shared ∧ ∀ t, ∃ s, P.Meanwhile t s c.shared ∧ P.wp S t (c.threads t) (Q t) s

/-- The postcondition of a finished thread, at the moment it finished. -/
theorem Ok.outcome {c : Config Tid Op Res E α σ} (h : Ok P S Q c) {t : Tid} {x : Except E α}
    (hx : (c.threads t).outcome? = some x) : ∃ s, P.Meanwhile t s c.shared ∧ Q t x s := by
  obtain ⟨s, hm, hw⟩ := h.2 t
  cases hp : c.threads t with
  | ret a =>
    rw [hp] at hx hw
    obtain rfl : Except.ok a = x := by simpa [Prog.outcome?] using hx
    exact ⟨s, hm, hw⟩
  | raise e =>
    rw [hp] at hx hw
    obtain rfl : Except.error e = x := by simpa [Prog.outcome?] using hx
    exact ⟨s, hm, hw⟩
  | call o k => simp [hp, Prog.outcome?] at hx

variable [DecidableEq Tid]

theorem Ok.step {c c' : Config Tid Op Res E α σ}
    (henv : ∀ e s s', P.inv s → S.env e s s' → P.KeepsAll s s')
    (h : Ok P S Q c) (hs : S.Step c c') : Ok P S Q c' ∧ P.guar c.shared c'.shared := by
  obtain ⟨hi, hw⟩ := h
  cases hs with
  | run t hp r s' hx =>
    obtain ⟨s, hm, hwp⟩ := hw t
    rw [hp] at hwp
    obtain ⟨hk, hrest⟩ := hwp c.shared hm hi r s' hx
    refine ⟨⟨hk.inv, fun u => ?_⟩, hk.guar⟩
    by_cases hu : u = t
    · subst hu
      exact ⟨s', .refl, by simpa using hrest⟩
    · obtain ⟨su, hmu, hwu⟩ := hw u
      refine ⟨su, hmu.tail (hk.rely u hu), ?_⟩
      simpa [Function.update_of_ne hu] using hwu
  | env e s' hx =>
    have hk := henv e _ _ hi hx
    refine ⟨⟨hk.inv, fun u => ?_⟩, hk.guar⟩
    obtain ⟨su, hmu, hwu⟩ := hw u
    exact ⟨su, hmu.tail (hk.rely u), hwu⟩

theorem Ok.reach {c c' : Config Tid Op Res E α σ}
    (henv : ∀ e s s', P.inv s → S.env e s s' → P.KeepsAll s s')
    (h : Ok P S Q c) (hr : S.Reach c c') :
    Ok P S Q c' ∧ Relation.ReflTransGen P.guar c.shared c'.shared := by
  induction hr with
  | refl => exact ⟨h, .refl⟩
  | tail _ hs ih =>
    obtain ⟨hok, hg⟩ := ih.1.step henv hs
    exact ⟨hok, ih.2.tail hg⟩

omit [DecidableEq Tid] in
/-- Threads that meet their triples start a run that `Ok.reach` carries on. -/
theorem sound {c : Config Tid Op Res E α σ} {A : Tid → σ → Prop} (hinv : P.inv c.shared)
    (hA : ∀ t, A t c.shared) (htriple : ∀ t, P.Triple S t (A t) (c.threads t) (Q t)) :
    Ok P S Q c := ⟨hinv, fun t => ⟨c.shared, .refl, htriple t _ (hA t)⟩⟩

end Protocol

end Concurrency
