import Decisya.Sql.Session

/-!
# Code that talks to one database

A statement outside a transaction is saved at once, the statements of a transaction by its commit.
Any command may fail for any reason, and one that saves may have been carried out all the same. The
server may go down between two commands. Other operations of the code change what is saved as they
are said to.
-/

namespace Sql.Connection

open Concurrency
open Sql.Session (Command Crash outcome)

set_option autoImplicit false

/-- `working` is what a transaction has made of the database so far. -/
inductive Link (σ : Type) where
  | down
  | idle
  | working (work : σ)
  | aborted

structure State (σ : Type) where
  saved : σ
  link : Link σ

inductive Op (St Ext : Type) where
  | command (c : Command St)
  | other (x : Ext)

/-- An error of the server, or `none` for any other. -/
abbrev Res {St Ext : Type} (Err : Type) (ResX : Ext → Type) : Op St Ext → Type
  | .command _ => Except (Option Err) Unit
  | .other x => ResX x

structure Server (St Err σ Ext : Type) (ResX : Ext → Type) where
  run : St → σ → Except Err σ
  other : (x : Ext) → σ → ResX x → σ → Prop

section
variable {St Err σ Ext : Type} {ResX : Ext → Type}

/-- One command. -/
inductive Exec (run : St → σ → Except Err σ) :
    Command St → State σ → Except (Option Err) Unit → State σ → Prop where
  | connect (s : State σ) : Exec run .connect s (.ok ()) { s with link := .idle }
  | begin {s : State σ} (h : s.link = .idle) :
      Exec run .begin s (.ok ()) { s with link := .working s.saved }
  | execute {s : State σ} {st : St} {b : σ} (h : s.link = .idle) (hrun : run st s.saved = .ok b) :
      Exec run (.execute st) s (.ok ()) { s with saved := b }
  | executeFails {s : State σ} {st : St} {e : Err} (h : s.link = .idle)
      (hrun : run st s.saved = .error e) : Exec run (.execute st) s (.error (some e)) s
  | executeUnheard {s : State σ} {st : St} {b : σ} (h : s.link = .idle)
      (hrun : run st s.saved = .ok b) : Exec run (.execute st) s (.error none) ⟨b, .down⟩
  | work {s : State σ} {st : St} {w b : σ} (h : s.link = .working w) (hrun : run st w = .ok b) :
      Exec run (.execute st) s (.ok ()) { s with link := .working b }
  | workFails {s : State σ} {st : St} {w : σ} {e : Err} (h : s.link = .working w)
      (hrun : run st w = .error e) :
      Exec run (.execute st) s (.error (some e)) { s with link := .aborted }
  | commit {s : State σ} {w : σ} (h : s.link = .working w) :
      Exec run .commit s (.ok ()) ⟨w, .idle⟩
  | commitUnheard {s : State σ} {w : σ} (h : s.link = .working w) :
      Exec run .commit s (.error none) ⟨w, .down⟩
  | dispose {s : State σ} (h : s.link ≠ .down) : Exec run .dispose s (.ok ()) { s with link := .idle }
  | close (s : State σ) : Exec run .close s (.ok ()) { s with link := .down }
  | lost (c : Command St) (s : State σ) : Exec run c s (.error none) { s with link := .down }

def exec (V : Server St Err σ Ext ResX) : (o : Op St Ext) → State σ → Res Err ResX o → State σ → Prop
  | .command c, s, r, s' => Exec V.run c s r s'
  | .other x, s, r, s' => ∃ b, V.other x s.saved r b ∧ s' = { s with saved := b }

def system (V : Server St Err σ Ext ResX) : System Unit (Op St Ext) (Res Err ResX) Crash (State σ) where
  exec _ := exec V
  env _ s s' := s' = { s with link := .down }

/-! ## Code -/

abbrev Code (St Err Ext : Type) (ResX : Ext → Type) (E α : Type) := Prog (Op St Ext) (Res Err ResX) E α

variable {E α β : Type} (fail : Option Err → E)

def command (c : Command St) : Code St Err Ext ResX E Unit :=
  .call (.command c) fun r =>
    match r with
    | .ok _ => .ret ()
    | .error e => .raise (fail e)

/-- What leaving an `await using` block does; nothing depends on how it ends. -/
def quietly (c : Command St) : Code St Err Ext ResX E Unit := .call (.command c) fun _ => .ret ()

def executeAll : List St → Code St Err Ext ResX E Unit
  | [] => .ret ()
  | st :: rest => (command fail (.execute st)).bind fun _ => executeAll rest

def transaction (statements : List St) : Code St Err Ext ResX E Unit :=
  (command fail .begin).bind fun _ =>
    ((executeAll fail statements).bind fun _ => command fail .commit).tryFinally (quietly .dispose)

def connected (p : Code St Err Ext ResX E α) : Code St Err Ext ResX E α :=
  (command fail .connect).bind fun _ => p.tryFinally (quietly .close)

theorem outcome_cons {run : St → σ → Except Err σ} {st : St} {rest : List St} {a b : σ}
    (h : outcome run (st :: rest) a = some b) : ∃ a', run st a = .ok a' ∧ outcome run rest a' = some b := by
  simp only [outcome] at h
  cases hrun : run st a with
  | error e =>
    rw [hrun] at h
    cases h
  | ok a' =>
    rw [hrun] at h
    exact ⟨a', rfl, h⟩

/-! ## What code leaves of a known database -/

/-- No transaction is open on the database `c`. -/
def At (c : σ) (s : State σ) : Prop := s.saved = c ∧ (s.link = .idle ∨ s.link = .down)

/-- A transaction has made `w` of the database `c`. -/
def Working (c w : σ) (s : State σ) : Prop := s.saved = c ∧ (s.link = .working w ∨ s.link = .down)

/-- A result is left with a database that `Φ` describes. -/
def Ends (Φ : α → σ → Prop) : Except E α → State σ → Prop
  | .ok a, s => ∃ b, Φ a b ∧ At b s
  | .error _, _ => True

/-- `I` holds of the database at every moment. -/
def protocol (I : σ → Prop) : Protocol Unit (State σ) where
  inv s := I s.saved
  guar _ _ := True
  rely _ s s' := s' = { s with link := .down }

/-- From the database `c` the code keeps `I` and a result is left with what `Φ` describes. -/
def Spec (V : Server St Err σ Ext ResX) (I : σ → Prop) (c : σ) (p : Code St Err Ext ResX E α)
    (Φ : α → σ → Prop) : Prop :=
  (protocol I).Triple (system V) () (At c) p (Ends Φ)

variable {fail} {V : Server St Err σ Ext ResX} {I : σ → Prop} {c : σ}

theorem keeps {s s' : State σ} (h : I s'.saved) : (protocol I).Keeps () s s' :=
  ⟨h, trivial, fun u hu => absurd (Subsingleton.elim u ()) hu⟩

theorem at_stable (c : σ) : (protocol I).Stable () (At c) := by
  rintro s s' ⟨hsaved, -⟩ rfl
  exact ⟨hsaved, .inr rfl⟩

theorem working_stable (c w : σ) : (protocol I).Stable () (Working c w) := by
  rintro s s' ⟨hsaved, -⟩ rfl
  exact ⟨hsaved, .inr rfl⟩

theorem At.not_working {s : State σ} (h : At c s) {w : σ} : s.link ≠ .working w := by
  rcases h.2 with hlink | hlink <;> rw [hlink] <;> simp

theorem Working.not_idle {w : σ} {s : State σ} (h : Working c w s) : s.link ≠ .idle := by
  rcases h.2 with hlink | hlink <;> rw [hlink] <;> simp

theorem Working.eq {w w' : σ} {s : State σ} (h : Working c w s) (hlink : s.link = .working w') :
    w' = w := by
  rcases h.2 with hw | hdown
  · rw [hw] at hlink
    cases hlink
    rfl
  · rw [hdown] at hlink
    cases hlink

theorem ends_stable (Φ : α → σ → Prop) (x : Except E α) : (protocol I).Stable () (Ends Φ x) := by
  intro s s' h hrely
  cases x with
  | ok a =>
    obtain ⟨b, hΦ, hat⟩ := h
    exact ⟨b, hΦ, at_stable (I := I) b s s' hat hrely⟩
  | error e => trivial

/-! ## Rules -/

theorem Spec.ret {a : α} {Φ : α → σ → Prop} (h : Φ a c) :
    Spec V I c (.ret a : Code St Err Ext ResX E α) Φ :=
  Protocol.Triple.ret fun _ hs => ⟨c, h, hs⟩

theorem Spec.raise {e : E} {Φ : α → σ → Prop} : Spec V I c (.raise e : Code St Err Ext ResX E α) Φ :=
  Protocol.Triple.raise fun _ _ => trivial

theorem Spec.mono {p : Code St Err Ext ResX E α} {Φ Ψ : α → σ → Prop} (h : Spec V I c p Φ)
    (hΦ : ∀ a b, Φ a b → Ψ a b) : Spec V I c p Ψ := by
  refine Protocol.Triple.conseq h (fun _ hs => hs) fun x s hx => ?_
  cases x with
  | ok a =>
    obtain ⟨b, hb, hat⟩ := hx
    exact ⟨b, hΦ a b hb, hat⟩
  | error e => trivial

theorem Spec.bind {p : Code St Err Ext ResX E α} {f : α → Code St Err Ext ResX E β} {Φ : α → σ → Prop}
    {Ψ : β → σ → Prop} (hp : Spec V I c p Φ) (hf : ∀ a b, Φ a b → Spec V I b (f a) Ψ) :
    Spec V I c (p.bind f) Ψ := by
  refine Protocol.Triple.bind (Ends Φ) hp (fun a => ?_) fun _ _ _ => trivial
  rintro s ⟨b, hΦ, hat⟩
  exact hf a b hΦ s hat

theorem Spec.ofExcept {x : Except E α} {f : α → Code St Err Ext ResX E β} {Φ : β → σ → Prop}
    (h : ∀ a, x = .ok a → Spec V I c (f a) Φ) : Spec V I c ((Prog.ofExcept x).bind f) Φ := by
  cases x with
  | ok a => exact h a rfl
  | error e => exact Spec.raise

theorem Spec.other {x : Ext} {Φ : ResX x → σ → Prop} (hI : ∀ r b, I c → V.other x c r b → I b)
    (h : ∀ r b, V.other x c r b → Φ r b) :
    Spec V I c (Prog.perform (Op.other x) : Code St Err Ext ResX E (ResX x)) Φ := by
  refine Protocol.Triple.perform (at_stable c) ?_
  rintro s r s' hi ⟨rfl, hlink⟩ ⟨b, hother, rfl⟩
  exact ⟨keeps (hI r b hi hother), b, h r b hother, rfl, hlink⟩

/-- A statement of its own, whose error is looked at. -/
theorem Spec.tryExecute {st : St} {f : Except (Option Err) Unit → Code St Err Ext ResX E α}
    {Φ : α → σ → Prop} (hI : ∀ b, I c → V.run st c = .ok b → I b)
    (hok : ∀ b, V.run st c = .ok b → Spec V I b (f (.ok ())) Φ)
    (herror : ∀ e, V.run st c = .error e → Spec V I c (f (.error (some e))) Φ)
    (hlost : ∀ b, Spec V I b (f (.error none)) Φ) :
    Spec V I c (.call (.command (.execute st)) f) Φ := by
  refine Protocol.Triple.call (fun (r : Except (Option Err) Unit) s =>
    (∃ b, At b s ∧ (r = .ok () → V.run st c = .ok b)) ∧
      ∀ e, r = .error (some e) → V.run st c = .error e ∧ At c s) (at_stable c) ?_ ?_
  · rintro s r s' hi hat hx
    have hnot : ∀ w, s.link ≠ .working w := fun w => hat.not_working
    obtain ⟨rfl, hlink⟩ := hat
    cases hx with
    | execute h hrun =>
      exact ⟨keeps (hI _ hi hrun), ⟨_, ⟨rfl, hlink⟩, fun _ => hrun⟩, fun e he => by cases he⟩
    | executeFails h hrun =>
      refine ⟨keeps hi, ⟨_, ⟨rfl, hlink⟩, fun he => by cases he⟩, fun e he => ?_⟩
      cases he
      exact ⟨hrun, rfl, hlink⟩
    | executeUnheard h hrun =>
      exact ⟨keeps (hI _ hi hrun), ⟨_, ⟨rfl, .inr rfl⟩, fun he => by cases he⟩, fun e he => by cases he⟩
    | work h hrun => exact absurd h (hnot _)
    | workFails h hrun => exact absurd h (hnot _)
    | lost => exact ⟨keeps hi, ⟨_, ⟨rfl, .inr rfl⟩, fun he => by cases he⟩, fun e he => by cases he⟩
  · intro r s hr
    cases r with
    | ok u =>
      obtain ⟨⟨b, hat, hrun⟩, -⟩ := hr
      exact hok b (hrun rfl) s hat
    | error e =>
      cases e with
      | some e =>
        obtain ⟨hrun, hat⟩ := hr.2 e rfl
        exact herror e hrun s hat
      | none =>
        obtain ⟨⟨b, hat, -⟩, -⟩ := hr
        exact hlost b s hat

theorem Spec.execute {st : St} {Φ : Unit → σ → Prop} (hI : ∀ b, I c → V.run st c = .ok b → I b)
    (h : ∀ b, V.run st c = .ok b → Φ () b) : Spec V I c (command fail (.execute st)) Φ := by
  apply Spec.tryExecute hI
  · intro b hrun
    exact Spec.ret (h b hrun)
  · intro e _
    exact Spec.raise
  · intro b
    exact Spec.raise

/-- Statements of their own one after another; `J` is what each needs of the one before. -/
theorem Spec.executeAll {statements : List St} {J : σ → Prop} {Φ : Unit → σ → Prop} (hJ : J c)
    (hstep : ∀ st ∈ statements, ∀ a b, J a → V.run st a = .ok b → J b ∧ (I a → I b))
    (h : ∀ b, J b → outcome V.run statements c = some b → Φ () b) :
    Spec V I c (executeAll fail statements) Φ := by
  induction statements generalizing c with
  | nil => exact Spec.ret (h c hJ rfl)
  | cons st rest ih =>
    have hfirst := hstep st (by simp)
    have hexecute : Spec V I c (command fail (.execute st) : Code St Err Ext ResX E Unit)
        fun _ b => V.run st c = .ok b :=
      Spec.execute (fun b hi hrun => (hfirst c b hJ hrun).2 hi) fun _ hrun => hrun
    apply Spec.bind hexecute
    intro _ b hrun
    apply ih (hfirst c b hJ hrun).1
    · intro st' hmem
      exact hstep st' (by simp [hmem])
    · intro b' hJ' hrest
      apply h b' hJ'
      simp only [outcome, hrun]
      exact hrest

/-- Leaving a block keeps what its body left. -/
theorem triple_quietly {cmd : Command St} (hcmd : cmd = .dispose ∨ cmd = .close) (Φ : α → σ → Prop)
    (x : Except E α) :
    (protocol I).Triple (system V) () (Ends Φ x) (quietly cmd : Code St Err Ext ResX E Unit)
      (Protocol.finallyPost (Ends Φ) x) := by
  have hkept : ∀ s r s', Ends Φ x s → Exec V.run cmd s r s' → s'.saved = s.saved ∧ Ends Φ x s' := by
    intro s r s' hs hx
    have hlink : s'.saved = s.saved ∧ (s'.link = .idle ∨ s'.link = .down) := by
      rcases hcmd with rfl | rfl <;> cases hx <;> simp
    refine ⟨hlink.1, ?_⟩
    cases x with
    | ok a =>
      obtain ⟨b, hΦ, hat⟩ := hs
      exact ⟨b, hΦ, hlink.1.trans hat.1, hlink.2⟩
    | error e => trivial
  refine Protocol.Triple.call (fun _ => Ends Φ x) (ends_stable Φ x) ?_ ?_
  · intro s r s' hi hs hx
    obtain ⟨hsaved, hends⟩ := hkept s r s' hs hx
    have hinv : I s'.saved := by
      rw [hsaved]
      exact hi
    exact ⟨keeps hinv, hends⟩
  · intro r
    exact Protocol.Triple.ret fun _ h => h

theorem Spec.connected {p : Code St Err Ext ResX E α} {Φ : α → σ → Prop} (hp : Spec V I c p Φ) :
    Spec V I c (connected fail p) Φ := by
  have hconnect : Spec V I c (command fail .connect : Code St Err Ext ResX E Unit) fun _ b => b = c := by
    refine Protocol.Triple.call (fun _ => At c) (at_stable c) ?_ ?_
    · rintro s r s' hi ⟨rfl, -⟩ hx
      cases hx with
      | connect => exact ⟨keeps hi, rfl, .inl rfl⟩
      | lost => exact ⟨keeps hi, rfl, .inr rfl⟩
    · intro r
      cases r with
      | ok u => exact Protocol.Triple.ret fun _ hs => ⟨c, rfl, hs⟩
      | error e => exact Protocol.Triple.raise fun _ _ => trivial
  refine Spec.bind hconnect ?_
  rintro _ _ rfl
  exact Protocol.Triple.tryFinally (Ends Φ) hp fun x => triple_quietly (.inr rfl) Φ x

/-- What the statements of a transaction have made of the database, while nothing is saved. -/
def WorkEnds (c : σ) (w : Option σ) : Except E Unit → State σ → Prop
  | .ok _, s => ∃ b, w = some b ∧ Working c b s
  | .error _, _ => True

theorem triple_work {st : St} {w : σ} :
    (protocol I).Triple (system V) () (Working c w)
      (command fail (.execute st) : Code St Err Ext ResX E Unit)
      (WorkEnds c (V.run st w).toOption) := by
  refine Protocol.Triple.call (fun (r : Except (Option Err) Unit) s => r = .ok () →
    ∃ b, V.run st w = .ok b ∧ Working c b s) (working_stable c w) ?_ ?_
  · intro s r s' hi hworking hx
    cases hx with
    | execute h hrun => exact absurd h hworking.not_idle
    | executeFails h hrun => exact absurd h hworking.not_idle
    | executeUnheard h hrun => exact absurd h hworking.not_idle
    | @work _ _ w' b h hrun =>
      obtain rfl := hworking.eq h
      exact ⟨keeps hi, fun _ => ⟨b, hrun, hworking.1, .inl rfl⟩⟩
    | workFails h hrun => exact ⟨keeps hi, fun he => by cases he⟩
    | lost => exact ⟨keeps hi, fun he => by cases he⟩
  · intro r
    cases r with
    | ok u =>
      refine Protocol.Triple.ret fun s hs => ?_
      obtain ⟨b, hrun, hworking⟩ := hs rfl
      exact ⟨b, by rw [hrun]; rfl, hworking⟩
    | error e => exact Protocol.Triple.raise fun _ _ => trivial

theorem triple_executeAll (statements : List St) (w : σ) :
    (protocol I).Triple (system V) () (Working c w)
      (executeAll fail statements : Code St Err Ext ResX E Unit)
      (WorkEnds c (outcome V.run statements w)) := by
  induction statements generalizing w with
  | nil => exact Protocol.Triple.ret fun s hs => ⟨w, rfl, hs⟩
  | cons st rest ih =>
    refine Protocol.Triple.bind _ triple_work (fun u => ?_) fun _ _ _ => trivial
    rintro s ⟨b, hrun, hworking⟩
    have hrest := ih b s hworking
    simp only [outcome, hrun]
    exact hrest

theorem Spec.transaction {statements : List St} {Φ : Unit → σ → Prop}
    (hI : ∀ b, I c → outcome V.run statements c = some b → I b)
    (h : ∀ b, outcome V.run statements c = some b → Φ () b) :
    Spec V I c (transaction fail statements) Φ := by
  have hbegin : (protocol I).Triple (system V) () (At c)
      (command fail .begin : Code St Err Ext ResX E Unit) (WorkEnds c (some c)) := by
    refine Protocol.Triple.call (fun (r : Except (Option Err) Unit) s => r = .ok () → Working c c s)
      (at_stable c) ?_ ?_
    · rintro s r s' hi ⟨rfl, -⟩ hx
      cases hx with
      | begin h => exact ⟨keeps hi, fun _ => ⟨rfl, .inl rfl⟩⟩
      | lost => exact ⟨keeps hi, fun he => by cases he⟩
    · intro r
      cases r with
      | ok u => exact Protocol.Triple.ret fun s hs => ⟨c, rfl, hs rfl⟩
      | error e => exact Protocol.Triple.raise fun _ _ => trivial
  have hcommit : ∀ w, outcome V.run statements c = some w →
      (protocol I).Triple (system V) () (Working c w)
        (command fail .commit : Code St Err Ext ResX E Unit) (Ends Φ) := by
    intro w hw
    refine Protocol.Triple.call (fun (r : Except (Option Err) Unit) s => r = .ok () → At w s)
      (working_stable c w) ?_ ?_
    · intro s r s' hi hworking hx
      have hsaved := hworking.1
      subst hsaved
      cases hx with
      | commit h =>
        obtain rfl := hworking.eq h
        exact ⟨keeps (hI _ hi hw), fun _ => ⟨rfl, .inl rfl⟩⟩
      | commitUnheard h =>
        obtain rfl := hworking.eq h
        exact ⟨keeps (hI _ hi hw), fun he => by cases he⟩
      | lost => exact ⟨keeps hi, fun he => by cases he⟩
    · intro r
      cases r with
      | ok u => exact Protocol.Triple.ret fun s hs => ⟨w, h w hw, hs rfl⟩
      | error e => exact Protocol.Triple.raise fun _ _ => trivial
  refine Protocol.Triple.bind _ hbegin (fun u => ?_) fun _ _ _ => trivial
  rintro s ⟨w, hw, hworking⟩
  cases hw
  refine Protocol.Triple.tryFinally (Ends Φ) ?_ (fun x => triple_quietly (.inl rfl) Φ x) s hworking
  refine Protocol.Triple.bind _ (triple_executeAll statements c) (fun u => ?_) fun _ _ _ => trivial
  rintro s ⟨w, hw, hworking⟩
  exact hcommit w hw s hworking

/-- Code on one thread, run from a database on which nobody else works. -/
def start (p : Code St Err Ext ResX E α) (c : σ) :
    Config Unit (Op St Ext) (Res Err ResX) E α (State σ) :=
  ⟨fun _ => p, ⟨c, .down⟩⟩

/-- Whatever fails and wherever the server goes down: `I` holds, and `Φ` once the code returned. -/
theorem Spec.reach {p : Code St Err Ext ResX E α} {Φ : α → σ → Prop} (hI : I c) (h : Spec V I c p Φ)
    {k : Config Unit (Op St Ext) (Res Err ResX) E α (State σ)} (hreach : (system V).Reach (start p c) k) :
    I k.shared.saved ∧ ∀ a, (k.threads ()).outcome? = some (.ok a) → Φ a k.shared.saved := by
  have hstart : Protocol.Ok (protocol I) (system V) (fun _ => Ends Φ) (start p c) :=
    Protocol.sound (A := fun _ => At c) hI (fun _ => ⟨rfl, .inr rfl⟩) fun _ => h
  have hcrash : ∀ e s s', (protocol I).inv s → (system V).env e s s' → (protocol I).KeepsAll s s' := by
    rintro e s s' hi rfl
    exact ⟨hi, trivial, fun _ => rfl⟩
  obtain ⟨hok, -⟩ := hstart.reach hcrash hreach
  refine ⟨hok.1, fun a ha => ?_⟩
  obtain ⟨s, hmeanwhile, hs⟩ := hok.outcome ha
  obtain ⟨b, hΦ, hat⟩ := (ends_stable (I := I) Φ (.ok a)).meanwhile hmeanwhile hs
  rw [hat.1]
  exact hΦ

/-- The reply of a server on which nothing goes wrong but what a statement itself says. -/
def answer (run : St → σ → Except Err σ) :
    Command St → State σ → Option (Except (Option Err) Unit × State σ)
  | .connect, s => some (.ok (), { s with link := .idle })
  | .begin, ⟨a, .idle⟩ => some (.ok (), ⟨a, .working a⟩)
  | .execute st, ⟨a, .idle⟩ =>
    match run st a with
    | .ok b => some (.ok (), ⟨b, .idle⟩)
    | .error e => some (.error (some e), ⟨a, .idle⟩)
  | .execute st, ⟨a, .working w⟩ =>
    match run st w with
    | .ok b => some (.ok (), ⟨a, .working b⟩)
    | .error e => some (.error (some e), ⟨a, .aborted⟩)
  | .commit, ⟨_, .working w⟩ => some (.ok (), ⟨w, .idle⟩)
  | .dispose, ⟨a, .idle⟩ => some (.ok (), ⟨a, .idle⟩)
  | .close, s => some (.ok (), { s with link := .down })
  | _, _ => none

theorem exec_of_answer {run : St → σ → Except Err σ} {cmd : Command St} {s s' : State σ}
    {r : Except (Option Err) Unit} (h : answer run cmd s = some (r, s')) : Exec run cmd s r s' := by
  obtain ⟨a, link⟩ := s
  cases cmd with
  | connect =>
    cases h
    exact .connect _
  | close =>
    cases h
    exact .close _
  | begin =>
    cases link <;> cases h
    exact .begin rfl
  | dispose =>
    cases link <;> cases h
    exact .dispose (by simp)
  | commit =>
    cases link <;> cases h
    exact .commit rfl
  | execute st =>
    cases link with
    | idle =>
      cases hrun : run st a with
      | ok b =>
        simp only [answer, hrun] at h
        cases h
        exact .execute rfl hrun
      | error e =>
        simp only [answer, hrun] at h
        cases h
        exact .executeFails rfl hrun
    | working w =>
      cases hrun : run st w with
      | ok b =>
        simp only [answer, hrun] at h
        cases h
        exact .work rfl hrun
      | error e =>
        simp only [answer, hrun] at h
        cases h
        exact .workFails rfl hrun
    | down => cases h
    | aborted => cases h

end

end Sql.Connection
