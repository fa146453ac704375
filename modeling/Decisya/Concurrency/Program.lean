import Mathlib.Logic.Relation
import Mathlib.Logic.Function.Basic
import Mathlib.Data.Nat.Notation

/-!
# Sequential code over atomic operations, and its interleavings

A `Prog` stops at each atomic operation and continues with the reply. A `System`
says what one operation of one thread, or one step of the environment, may do to
the shared state. Threads are interleaved at the operations and nowhere else.

This module fixes no operations, no state and no scheduler.
-/

namespace Concurrency

set_option autoImplicit false

/-- `raise` is an exception that leaves the code. -/
inductive Prog (Op : Type) (Res : Op → Type) (E α : Type) where
  | ret (a : α)
  | raise (e : E)
  | call (o : Op) (k : Res o → Prog Op Res E α)

namespace Prog
variable {Op : Type} {Res : Op → Type} {E α β : Type}

def bind : Prog Op Res E α → (α → Prog Op Res E β) → Prog Op Res E β
  | ret a, f => f a
  | raise e, _ => raise e
  | call o k, f => call o fun r => (k r).bind f

instance : Monad (Prog Op Res E) where
  pure := ret
  bind := bind

/-- One atomic operation. -/
def perform (o : Op) : Prog Op Res E (Res o) := call o ret

/-- Unwraps a reply that may be an exception. -/
def ofExcept : Except E α → Prog Op Res E α
  | .ok a => ret a
  | .error e => raise e

/-- `try p finally f`: `f` runs on a result and on an exception alike. -/
def tryFinally : Prog Op Res E α → Prog Op Res E Unit → Prog Op Res E α
  | ret a, f => f.bind fun _ => ret a
  | raise e, f => f.bind fun _ => raise e
  | call o k, f => call o fun r => (k r).tryFinally f

/-- The outcome of `p` as a value, for a `catch` to look at. -/
def attempt {E' : Type} : Prog Op Res E α → Prog Op Res E' (Except E α)
  | ret a => ret (.ok a)
  | raise e => ret (.error e)
  | call o k => call o fun r => (k r).attempt

/-- Whatever the replies are, every operation the code comes to satisfies `φ` and a
result satisfies `ψ`. -/
def Performs (φ : Op → Prop) (ψ : α → Prop) : Prog Op Res E α → Prop
  | ret a => ψ a
  | raise _ => True
  | call o k => φ o ∧ ∀ r, (k r).Performs φ ψ

/-- How a finished thread ended; `none` while it still has an operation to do. -/
def outcome? : Prog Op Res E α → Option (Except E α)
  | ret a => some (.ok a)
  | raise e => some (.error e)
  | call _ _ => none

/-- Runs `n` operations, each answered by `answer`; `none` when one cannot be or the
code ends before. -/
def advance {σ : Type} (answer : (o : Op) → σ → Option (Res o × σ)) :
    ℕ → Prog Op Res E α → σ → Option (Prog Op Res E α × σ)
  | 0, p, s => some (p, s)
  | n + 1, call o k, s => (answer o s).bind fun (r, s') => (k r).advance answer n s'
  | _ + 1, _, _ => none

@[simp] theorem pure_eq (a : α) : (pure a : Prog Op Res E α) = ret a := rfl

@[simp] theorem bind_eq (p : Prog Op Res E α) (f : α → Prog Op Res E β) :
    (p >>= f) = p.bind f := rfl

@[simp] theorem ret_bind (a : α) (f : α → Prog Op Res E β) : (ret a).bind f = f a := rfl

@[simp] theorem raise_bind (e : E) (f : α → Prog Op Res E β) :
    (raise e : Prog Op Res E α).bind f = raise e := rfl

@[simp] theorem call_bind (o : Op) (k : Res o → Prog Op Res E α) (f : α → Prog Op Res E β) :
    (call o k).bind f = call o fun r => (k r).bind f := rfl

@[simp] theorem map_eq (g : α → β) (p : Prog Op Res E α) :
    g <$> p = p.bind fun a => ret (g a) := rfl

section Performs
variable {φ φ' : Op → Prop} {ψ ψ' : α → Prop}

theorem Performs.mono {p : Prog Op Res E α} (hp : p.Performs φ ψ) (hφ : ∀ o, φ o → φ' o)
    (hψ : ∀ a, ψ a → ψ' a) : p.Performs φ' ψ' := by
  induction p with
  | ret a => exact hψ a hp
  | raise e => trivial
  | call o k ih => exact ⟨hφ o hp.1, fun r => ih r (hp.2 r)⟩

theorem Performs.bind {χ : β → Prop} {p : Prog Op Res E α} {f : α → Prog Op Res E β}
    (hp : p.Performs φ ψ) (hf : ∀ a, ψ a → (f a).Performs φ χ) : (p.bind f).Performs φ χ := by
  induction p with
  | ret a => exact hf a hp
  | raise e => trivial
  | call o k ih => exact ⟨hp.1, fun r => ih r (hp.2 r)⟩

theorem Performs.tryFinally {p : Prog Op Res E α} {f : Prog Op Res E Unit}
    (hp : p.Performs φ ψ) (hf : f.Performs φ fun _ => True) : (p.tryFinally f).Performs φ ψ := by
  induction p with
  | ret a => exact hf.bind fun _ _ => hp
  | raise e => exact hf.bind fun _ _ => trivial
  | call o k ih => exact ⟨hp.1, fun r => ih r (hp.2 r)⟩

theorem Performs.attempt {E' : Type} {p : Prog Op Res E α} (hp : p.Performs φ ψ) :
    (p.attempt : Prog Op Res E' (Except E α)).Performs φ fun _ => True := by
  induction p with
  | ret a => trivial
  | raise e => trivial
  | call o k ih => exact ⟨hp.1, fun r => ih r (hp.2 r)⟩

theorem Performs.ofExcept (x : Except E α) :
    (ofExcept x : Prog Op Res E α).Performs φ fun _ => True := by
  cases x <;> trivial

theorem Performs.perform {o : Op} (h : φ o) :
    (Prog.perform o : Prog Op Res E (Res o)).Performs φ fun _ => True := ⟨h, fun _ => trivial⟩

end Performs

end Prog

/-- The meaning of the operations, by thread, and of the environment's own events. -/
structure System (Tid Op : Type) (Res : Op → Type) (Ev σ : Type) where
  exec : Tid → (o : Op) → σ → Res o → σ → Prop
  env : Ev → σ → σ → Prop

structure Config (Tid Op : Type) (Res : Op → Type) (E α σ : Type) where
  threads : Tid → Prog Op Res E α
  shared : σ

/-- `n` operations of thread `t`, each answered by `answer t`; where that is not possible
nothing happens. -/
def Config.advance {Tid Op : Type} {Res : Op → Type} {σ E α : Type} [DecidableEq Tid]
    (answer : Tid → (o : Op) → σ → Option (Res o × σ))
    (c : Config Tid Op Res E α σ) (t : Tid) (n : ℕ) : Config Tid Op Res E α σ :=
  match (c.threads t).advance (answer t) n c.shared with
  | some (p, s) => ⟨Function.update c.threads t p, s⟩
  | none => c

namespace System
variable {Tid Op : Type} {Res : Op → Type} {Ev σ E α : Type}

/-- The same system with fewer steps: only those that `ok` and `okEnv` admit. -/
def restrict (S : System Tid Op Res Ev σ)
    (ok : Tid → (o : Op) → σ → Res o → σ → Prop) (okEnv : Ev → σ → σ → Prop) :
    System Tid Op Res Ev σ where
  exec t o s r s' := S.exec t o s r s' ∧ ok t o s r s'
  env e s s' := S.env e s s' ∧ okEnv e s s'

/-- Every step of `S` is one of `S'`. -/
structure Within (S S' : System Tid Op Res Ev σ) : Prop where
  exec : ∀ t o s r s', S.exec t o s r s' → S'.exec t o s r s'
  env : ∀ e s s', S.env e s s' → S'.env e s s'

theorem Within.refl (S : System Tid Op Res Ev σ) : Within S S :=
  ⟨fun _ _ _ _ _ h => h, fun _ _ _ h => h⟩

theorem within_restrict (S : System Tid Op Res Ev σ)
    (ok : Tid → (o : Op) → σ → Res o → σ → Prop) (okEnv : Ev → σ → σ → Prop) :
    Within (S.restrict ok okEnv) S :=
  ⟨fun _ _ _ _ _ h => h.1, fun _ _ _ h => h.1⟩

variable [DecidableEq Tid]

/-- One step of an interleaving: one operation of one thread, or one event. -/
inductive Step (S : System Tid Op Res Ev σ) :
    Config Tid Op Res E α σ → Config Tid Op Res E α σ → Prop where
  | run {c : Config Tid Op Res E α σ} (t : Tid) {o : Op} {k : Res o → Prog Op Res E α}
      (hp : c.threads t = .call o k) (r : Res o) (s' : σ) (hx : S.exec t o c.shared r s') :
      Step S c ⟨Function.update c.threads t (k r), s'⟩
  | env {c : Config Tid Op Res E α σ} (e : Ev) (s' : σ) (hx : S.env e c.shared s') :
      Step S c ⟨c.threads, s'⟩

/-- Every interleaving of finitely many steps. -/
def Reach (S : System Tid Op Res Ev σ) :
    Config Tid Op Res E α σ → Config Tid Op Res E α σ → Prop :=
  Relation.ReflTransGen (Step S)

namespace Reach
variable {S : System Tid Op Res Ev σ} {c c' c'' : Config Tid Op Res E α σ}

theorem refl (c : Config Tid Op Res E α σ) : Reach S c c := Relation.ReflTransGen.refl

theorem trans (h : Reach S c c') (h' : Reach S c' c'') : Reach S c c'' :=
  Relation.ReflTransGen.trans h h'

theorem run (h : Reach S c c') (t : Tid) {o : Op} {k : Res o → Prog Op Res E α}
    (hp : c'.threads t = .call o k) (r : Res o) (s' : σ) (hx : S.exec t o c'.shared r s') :
    Reach S c ⟨Function.update c'.threads t (k r), s'⟩ :=
  Relation.ReflTransGen.tail h (.run t hp r s' hx)

theorem env (h : Reach S c c') (e : Ev) (s' : σ) (hx : S.env e c'.shared s') :
    Reach S c ⟨c'.threads, s'⟩ :=
  Relation.ReflTransGen.tail h (.env e s' hx)

/-- A run of one thread under answers that the system allows. -/
theorem advance {answer : Tid → (o : Op) → σ → Option (Res o × σ)}
    (hanswer : ∀ t o s r s', answer t o s = some (r, s') → S.exec t o s r s')
    (h : Reach S c c') (t : Tid) (n : ℕ) : Reach S c (Config.advance answer c' t n) := by
  unfold Config.advance
  cases hx : (c'.threads t).advance (answer t) n c'.shared with
  | none => exact h
  | some x =>
    induction n generalizing c' with
    | zero =>
      obtain rfl : (c'.threads t, c'.shared) = x := Option.some.inj hx
      simpa using h
    | succ n ih =>
      cases hp : c'.threads t with
      | ret a => simp [hp, Prog.advance] at hx
      | raise e => simp [hp, Prog.advance] at hx
      | call o k =>
        rw [hp] at hx
        obtain ⟨⟨r, s'⟩, hr, hrest⟩ := Option.bind_eq_some_iff.mp hx
        have hstep := h.run t hp r s' (hanswer t o _ r s' hr)
        have hnext := ih hstep (by simpa using hrest)
        simpa using hnext

/-- A relation between states that every operation and every event keeps holds
between any two states of a run, whatever the threads are. -/
theorem shared_rel {R : σ → σ → Prop} (hrefl : ∀ s, R s s)
    (htrans : ∀ {a b d}, R a b → R b d → R a d)
    (hexec : ∀ t o s r s', S.exec t o s r s' → R s s')
    (henv : ∀ e s s', S.env e s s' → R s s')
    (h : Reach S c c') : R c.shared c'.shared := by
  induction h with
  | refl => exact hrefl _
  | tail _ hs ih =>
    cases hs with
    | run t hp r s' hx => exact htrans ih (hexec t _ _ r s' hx)
    | env e s' hx => exact htrans ih (henv e _ s' hx)

theorem mono {S' : System Tid Op Res Ev σ} (hS : Within S S') (h : Reach S c c') :
    Reach S' c c' := by
  induction h with
  | refl => exact refl _
  | tail _ hs ih =>
    cases hs with
    | run t hp r s' hx => exact ih.run t hp r s' (hS.exec t _ _ r s' hx)
    | env e s' hx => exact ih.env e s' (hS.env e _ s' hx)

end Reach
end System

end Concurrency
