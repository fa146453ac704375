import Decisya.Concurrency.RelyGuarantee

/-!
# A session with one transaction

What statements change, a value of any type, is saved by a commit and by nothing else. Any
command may fail for any reason, and then the transaction cannot be committed any more; the
server may also go down between two commands. A commit that fails may have been carried out
all the same.
-/

namespace Sql.Session

open Concurrency

set_option autoImplicit false

inductive Command (St : Type) where
  | connect
  | begin
  | execute (st : St)
  | commit
  | dispose
  | close
  deriving DecidableEq

/-- `commits` counts the commits that were carried out. -/
structure State (σ : Type) where
  saved : σ
  work : Option σ
  commits : ℕ

/-- The command that did not return, and its error; `none` when it is no error of the server. -/
structure Failure (St Err : Type) where
  command : Command St
  error : Option Err
  deriving DecidableEq

inductive Crash where
  | crash

abbrev Res (St Err : Type) (_ : Command St) : Type := Except (Option Err) Unit

abbrev Code (St Err α : Type) := Prog (Command St) (Res St Err) (Failure St Err) α

section
variable {St Err σ : Type}

/-- One command; `run` says what a statement does. -/
inductive Exec (run : St → σ → Except Err σ) :
    (o : Command St) → State σ → Res St Err o → State σ → Prop where
  | connect (s : State σ) : Exec run .connect s (.ok ()) { s with work := none }
  | begin (s : State σ) : Exec run .begin s (.ok ()) { s with work := some s.saved }
  | execute {s : State σ} {st : St} {w w' : σ} (hw : s.work = some w) (h : run st w = .ok w') :
      Exec run (.execute st) s (.ok ()) { s with work := some w' }
  | executeFails {s : State σ} {st : St} {w : σ} {e : Err} (hw : s.work = some w)
      (h : run st w = .error e) :
      Exec run (.execute st) s (.error (some e)) { s with work := none }
  | commit {s : State σ} {w : σ} (hw : s.work = some w) :
      Exec run .commit s (.ok ()) ⟨w, none, s.commits + 1⟩
  | commitUnheard {s : State σ} {w : σ} (hw : s.work = some w) :
      Exec run .commit s (.error none) ⟨w, none, s.commits + 1⟩
  | dispose (s : State σ) : Exec run .dispose s (.ok ()) { s with work := none }
  | close (s : State σ) : Exec run .close s (.ok ()) { s with work := none }
  | lost (o : Command St) (s : State σ) : Exec run o s (.error none) { s with work := none }

def system (run : St → σ → Except Err σ) :
    System Unit (Command St) (Res St Err) Crash (State σ) where
  exec _ := Exec run
  env _ s s' := s' = { s with work := none }

/-! ## Code -/

def command (o : Command St) : Code St Err Unit :=
  .call o fun
    | .ok _ => .ret ()
    | .error e => .raise ⟨o, e⟩

/-- What leaving an `await using` block does; nothing depends on how it ends. -/
def quietly (o : Command St) : Code St Err Unit := .call o fun _ => .ret ()

def executeAll : List St → Code St Err Unit
  | [] => .ret ()
  | st :: rest => (command (.execute st)).bind fun _ => executeAll rest

/-- One connection, one transaction on it, the statements in order and the commit. -/
def inOneTransaction (statements : List St) : Code St Err Unit :=
  (command .connect).bind fun _ =>
    ((command .begin).bind fun _ =>
      ((executeAll statements).bind fun _ => command .commit).tryFinally
        (quietly .dispose)).tryFinally (quietly .close)

/-! ## What a run leaves -/

/-- The statements one after another; `none` from the first that fails. -/
def outcome (run : St → σ → Except Err σ) : List St → σ → Option σ
  | [], a => some a
  | st :: rest, a => (run st a).toOption.bind (outcome run rest)

/-- Either nothing was saved, or the commit was carried out and all of it was. -/
def AllOrNothing (run : St → σ → Except Err σ) (statements : List St) (a : σ) (s : State σ) : Prop :=
  (s.commits = 0 ∧ s.saved = a) ∨ (s.commits = 1 ∧ outcome run statements a = some s.saved)

section Outline
variable (run : St → σ → Except Err σ) (statements : List St) (a : σ)

/-- What may happen while the code looks away is a crash. -/
def protocol : Protocol Unit (State σ) where
  inv := AllOrNothing run statements a
  guar _ _ := True
  rely _ s s' := s' = { s with work := none }

/-- Nothing is saved yet, and what is at work, if anything, is `w`. -/
def Before (w : Option σ) (s : State σ) : Prop :=
  s.commits = 0 ∧ s.saved = a ∧ ∀ b, s.work = some b → w = some b

/-- How the code ends. Only a commit that raised may have been carried out. -/
def Done : Except (Failure St Err) Unit → State σ → Prop
  | .ok _, s => s.commits = 1 ∧ outcome run statements a = some s.saved
  | .error f, s => AllOrNothing run statements a s ∧ (f.command ≠ .commit → s.commits = 0)

def ThenBefore (w : Option σ) : Except (Failure St Err) Unit → State σ → Prop
  | .ok _, s => Before a w s
  | .error f, s => Done run statements a (.error f) s

variable {run statements a}

theorem before_stable (w : Option σ) : (protocol run statements a).Stable () (Before a w) := by
  intro s s' hs hrely
  obtain rfl : s' = { s with work := none } := hrely
  exact ⟨hs.1, hs.2.1, fun b hb => by cases hb⟩

theorem done_stable (x : Except (Failure St Err) Unit) :
    (protocol run statements a).Stable () (Done run statements a x) := by
  intro s s' hs hrely
  obtain rfl : s' = { s with work := none } := hrely
  cases x with
  | ok _ => exact hs
  | error f => exact hs

theorem Before.inv {w : Option σ} {s : State σ} (h : Before a w s) :
    AllOrNothing run statements a s := Or.inl ⟨h.1, h.2.1⟩

theorem Done.inv {x : Except (Failure St Err) Unit} {s : State σ} (h : Done run statements a x s) :
    AllOrNothing run statements a s := by
  cases x with
  | ok _ => exact Or.inr h
  | error f => exact h.1

theorem ThenBefore.inv {w : Option σ} {x : Except (Failure St Err) Unit} {s : State σ}
    (h : ThenBefore run statements a w x s) : AllOrNothing run statements a s := by
  cases x with
  | ok _ => exact Before.inv h
  | error f => exact h.1

theorem keeps {s s' : State σ} (h : AllOrNothing run statements a s') :
    (protocol run statements a).Keeps () s s' :=
  ⟨h, trivial, fun u hu => absurd (Subsingleton.elim u ()) hu⟩

/-- A command that failed, other than the commit, has left nothing saved. -/
theorem Before.lost {w : Option σ} {s : State σ} (h : Before a w s) (f : Failure St Err) :
    Done run statements a (.error f) { s with work := none } :=
  ⟨Or.inl ⟨h.1, h.2.1⟩, fun _ => h.1⟩

theorem triple_command {o : Command St} {w : Option σ}
    {Q : Except (Failure St Err) Unit → State σ → Prop}
    (hQ : ∀ x s, Q x s → AllOrNothing run statements a s)
    (hok : ∀ s s', Before a w s → Exec run o s (.ok ()) s' → Q (.ok ()) s')
    (herror : ∀ s e s', Before a w s → Exec run o s (.error e) s' → Q (.error ⟨o, e⟩) s') :
    (protocol run statements a).Triple (system run) () (Before a w) (command o) Q := by
  have hpost : ∀ s r s', Before a w s → Exec run o s r s' →
      Q (match r with | .ok _ => .ok () | .error e => .error ⟨o, e⟩) s' := by
    intro s r s' hs hx
    cases r with
    | ok _ => exact hok s s' hs hx
    | error e => exact herror s e s' hs hx
  refine Protocol.Triple.call (fun r s => Q (match r with
    | .ok _ => .ok ()
    | .error e => .error ⟨o, e⟩) s) (before_stable w) ?_ ?_
  · intro s r s' _ hs hx
    exact ⟨keeps (hQ _ _ (hpost s r s' hs hx)), hpost s r s' hs hx⟩
  · intro r
    cases r with
    | ok _ => exact Protocol.Triple.ret fun _ h => h
    | error e => exact Protocol.Triple.raise fun _ h => h

theorem triple_connect :
    (protocol run statements a).Triple (system run) () (Before a none) (command .connect)
      (ThenBefore run statements a none) := by
  apply triple_command (fun _ _ h => h.inv)
  · intro s s' hs hx
    cases hx
    exact ⟨hs.1, hs.2.1, fun b hb => by cases hb⟩
  · intro s e s' hs hx
    cases hx
    exact hs.lost _

theorem triple_begin :
    (protocol run statements a).Triple (system run) () (Before a none) (command .begin)
      (ThenBefore run statements a (some a)) := by
  apply triple_command (fun _ _ h => h.inv)
  · intro s s' hs hx
    cases hx
    refine ⟨hs.1, hs.2.1, fun b hb => ?_⟩
    rw [← hb, hs.2.1]
  · intro s e s' hs hx
    cases hx
    exact hs.lost _

theorem triple_execute (st : St) (w : Option σ) :
    (protocol run statements a).Triple (system run) () (Before a w) (command (.execute st))
      (ThenBefore run statements a (w.bind fun b => (run st b).toOption)) := by
  apply triple_command (fun _ _ h => h.inv)
  · intro s s' hs hx
    cases hx with
    | execute hw hrun =>
      obtain rfl := hs.2.2 _ hw
      refine ⟨hs.1, hs.2.1, fun b hb => ?_⟩
      rw [← hb]
      simp [hrun, Except.toOption]
  · intro s e s' hs hx
    cases hx with
    | executeFails hw hrun => exact hs.lost _
    | lost => exact hs.lost _

theorem triple_executeAll (rest : List St) (w : Option σ) :
    (protocol run statements a).Triple (system run) () (Before a w) (executeAll rest)
      (ThenBefore run statements a (w.bind (outcome run rest))) := by
  induction rest generalizing w with
  | nil =>
    have hnil : w.bind (outcome run []) = w := by cases w <;> rfl
    rw [hnil]
    exact Protocol.Triple.ret fun _ h => h
  | cons st rest ih =>
    have hcons : w.bind (outcome run (st :: rest)) =
        (w.bind fun b => (run st b).toOption).bind (outcome run rest) := by
      cases w <;> rfl
    rw [hcons]
    exact Protocol.Triple.bind _ (triple_execute st w) (fun _ => ih _) fun _ _ h => h

theorem triple_commit :
    (protocol run statements a).Triple (system run) () (Before a (outcome run statements a))
      (command .commit) (Done run statements a) := by
  have hdone : ∀ s w, Before a (outcome run statements a) s → s.work = some w →
      s.commits + 1 = 1 ∧ outcome run statements a = some w := by
    intro s w hs hw
    have hcommits := hs.1
    exact ⟨by omega, hs.2.2 w hw⟩
  apply triple_command (fun _ _ h => h.inv)
  · intro s s' hs hx
    cases hx with
    | commit hw => exact hdone s _ hs hw
  · intro s e s' hs hx
    cases hx with
    | commitUnheard hw => exact ⟨Or.inr (hdone s _ hs hw), fun h => absurd rfl h⟩
    | lost => exact hs.lost _

theorem triple_quietly {o : Command St} (ho : o = .dispose ∨ o = .close)
    (x : Except (Failure St Err) Unit) :
    (protocol run statements a).Triple (system run) () (Done run statements a x) (quietly o)
      (Protocol.finallyPost (Done run statements a) x) := by
  have hkept : ∀ s r s', Done run statements a x s → Exec run o s r s' →
      Done run statements a x s' := by
    intro s r s' hs hx
    have hs' : s' = { s with work := none } := by
      rcases ho with rfl | rfl <;> cases hx <;> rfl
    exact done_stable x s s' hs hs'
  refine Protocol.Triple.call (fun _ => Done run statements a x) (done_stable x) ?_ ?_
  · intro s r s' _ hs hx
    exact ⟨keeps (hkept s r s' hs hx).inv, hkept s r s' hs hx⟩
  · intro r
    exact Protocol.Triple.ret fun _ h => h

theorem triple_inOneTransaction :
    (protocol run statements a).Triple (system run) () (Before a none)
      (inOneTransaction statements) (Done run statements a) := by
  refine Protocol.Triple.bind (ThenBefore run statements a none) triple_connect ?_
    (fun _ _ h => h)
  intro _
  refine Protocol.Triple.tryFinally (Done run statements a) ?_
    (fun x => triple_quietly (.inr rfl) x)
  refine Protocol.Triple.bind (ThenBefore run statements a (some a)) triple_begin ?_
    (fun _ _ h => h)
  intro _
  refine Protocol.Triple.tryFinally (Done run statements a) ?_
    (fun x => triple_quietly (.inl rfl) x)
  refine Protocol.Triple.bind _ (triple_executeAll statements (some a)) ?_ (fun _ _ h => h)
  intro _
  exact triple_commit

end Outline

/-- Whatever fails and wherever the server goes down: nothing or everything is saved, and
everything when the code returned. -/
theorem inOneTransaction_reach {run : St → σ → Except Err σ} {statements : List St} {a : σ}
    {c : Config Unit (Command St) (Res St Err) (Failure St Err) Unit (State σ)}
    (h : (system run).Reach ⟨fun _ => inOneTransaction statements, ⟨a, none, 0⟩⟩ c) :
    AllOrNothing run statements a c.shared ∧
      ∀ x, (c.threads ()).outcome? = some x → Done run statements a x c.shared := by
  have hstart : Protocol.Ok (protocol run statements a) (system run)
      (fun _ => Done run statements a) (⟨fun _ => inOneTransaction statements, ⟨a, none, 0⟩⟩ :
        Config Unit (Command St) (Res St Err) (Failure St Err) Unit (State σ)) := by
    refine Protocol.sound (A := fun _ => Before a none) (Or.inl ⟨rfl, rfl⟩) ?_ ?_
    · intro _
      exact ⟨rfl, rfl, fun b hb => by cases hb⟩
    · intro _
      exact triple_inOneTransaction
  have hcrash : ∀ e s s', (protocol run statements a).inv s → (system run).env e s s' →
      (protocol run statements a).KeepsAll s s' := by
    intro e s s' hi hx
    obtain rfl : s' = { s with work := none } := hx
    exact ⟨hi, trivial, fun _ => rfl⟩
  obtain ⟨hok, -⟩ := hstart.reach hcrash h
  refine ⟨hok.1, fun x hx => ?_⟩
  obtain ⟨s, hmeanwhile, hs⟩ := hok.outcome hx
  exact (done_stable x).meanwhile hmeanwhile hs

/-- The reply of a server on which nothing goes wrong but what a statement itself says. -/
def answer (run : St → σ → Except Err σ) :
    (o : Command St) → State σ → Option (Res St Err o × State σ)
  | .connect, s => some (.ok (), { s with work := none })
  | .begin, s => some (.ok (), { s with work := some s.saved })
  | .execute st, s => s.work.map fun w =>
      match run st w with
      | .ok w' => (.ok (), { s with work := some w' })
      | .error e => (.error (some e), { s with work := none })
  | .commit, s => s.work.map fun w => (.ok (), ⟨w, none, s.commits + 1⟩)
  | .dispose, s => some (.ok (), { s with work := none })
  | .close, s => some (.ok (), { s with work := none })

theorem exec_of_answer {run : St → σ → Except Err σ} {o : Command St} {s s' : State σ}
    {r : Res St Err o} (h : answer run o s = some (r, s')) : Exec run o s r s' := by
  cases o with
  | connect =>
    cases h
    exact .connect s
  | begin =>
    cases h
    exact .begin s
  | execute st =>
    obtain ⟨w, hw, hreply⟩ := Option.map_eq_some_iff.mp h
    cases hrun : run st w with
    | ok w' =>
      rw [hrun] at hreply
      cases hreply
      exact .execute hw hrun
    | error e =>
      rw [hrun] at hreply
      cases hreply
      exact .executeFails hw hrun
  | commit =>
    obtain ⟨w, hw, hreply⟩ := Option.map_eq_some_iff.mp h
    cases hreply
    exact .commit hw
  | dispose =>
    cases h
    exact .dispose s
  | close =>
    cases h
    exact .close s

end

end Sql.Session
