import Decisya.Bff.Outline

/-!
# Which refresh races end a healthy session

After an `invalid_grant` the ticket is read once more. The session goes on only when
that read finds another refresh token than the one just sent, beside an access token
that is fresh when it is checked. Between Keycloak's rotation and the write-back of the
thread that caused it, the ticket still holds the sent token.
-/

namespace Decisya.Bff

set_option autoImplicit false

open Concurrency Redis

/-- The current token is exchanged for a fresh one; any other is refused. -/
def Keycloak.StrictRotation (kc : Keycloak) : HttpRequest → HttpResponse → Prop
  | .refresh rt, response =>
    if rt ∈ kc.current then
      ∃ payload r, response = .ok (some (some payload)) ∧ payload.refreshToken = some r ∧
        r ≠ "" ∧ r ∉ kc.issued ∧ isNullOrEmpty payload.accessToken = false ∧ 0 < payload.expiresIn
    else ∃ body, response = .status 400 body ∧ bodyContains body invalidGrantMarker = true
  | .endSession _, _ => True

def Expired (w : World) (ticket : AuthenticationTicket) : Prop :=
  ticket.expiresUtc.any (fun e => decide (e < toDateTimeOffset w.clock)) = true

instance (w : World) (ticket : AuthenticationTicket) : Decidable (Expired w ticket) :=
  inferInstanceAs (Decidable (_ = _))

/-- Keycloak rotates strictly, no read fails and the ticket does not expire. Locks may. -/
def healthySystem (key : String) : System ℕ Op Op.Res Ev World :=
  system.restrict
    (fun _ o _ r _ => match o, r with
      | .stringGet _, r => ∃ v, r = .ok v
      | _, _ => True)
    fun e w w' => match e with
      | .keycloakAnswers t response => ∀ request, w.exchange t = .sent request →
        w.keycloak.StrictRotation request response
      | _ => ∀ ticket, HoldsTicket w key ticket →
        HoldsTicket w' key ticket ∧ ¬ Expired w' ticket

/-- The last thing that happened to `t` is that Keycloak refused the token `sent`. -/
def JustRefused (w : World) (t : ℕ) (sent : String) : Prop :=
  ∃ body past, w.events t = .received (.refresh sent) (.status 400 body) :: past ∧
    bodyContains body invalidGrantMarker = true

/-- `t` then read this ticket again. -/
def ReReadAfterRefusal (key : String) (w : World) (t : ℕ) (ticket : AuthenticationTicket) : Prop :=
  ∃ sent body past, w.events t = .fetched (ticketKeyName key) (some (protect key ticket)) ::
      .received (.refresh sent) (.status 400 body) :: past ∧
    bodyContains body invalidGrantMarker = true

/-- A thread whose token was refused finds another token, and a fresh access token. -/
def RaceSettled (key : String) (t : ℕ) : Op → World → Prop
  | .stringGet _, w => ∀ sent, JustRefused w t sent →
    ∀ ticket, HoldsTicket w key ticket → ticket.tokens.refreshToken ≠ some sent
  | .getCurrentInstant, w => ∀ ticket, ReReadAfterRefusal key w t ticket →
    (isFresh w.clock ticket).isSome
  | _, _ => True

/-- The runs in which every refused thread comes late enough. -/
def settledSystem (key : String) : System ℕ Op Op.Res Ev World :=
  (healthySystem key).restrict (fun t o w _ _ => RaceSettled key t o w) fun _ _ _ => True

/-- A session that can be refreshed, before any of the calls runs. -/
structure SignedIn (key : String) (ticket : AuthenticationTicket) (w : World) : Prop where
  holds : HoldsTicket w key ticket
  expires : ticket.expiresUtc.isSome
  current : ¬ Expired w ticket
  refreshToken : ∃ rt ∈ w.keycloak.current, rt ≠ "" ∧ ticket.tokens.refreshToken = some rt
  idle : ∀ t, w.exchange t = .idle
  history : w.history = []

namespace HealthySession

variable (key : String) (expiry : ℤ)

/-- A ticket of the session: it can be refreshed, and expires when the first one did. -/
structure Refreshable (ticket : AuthenticationTicket) : Prop where
  expires : ticket.expiresUtc = some expiry
  refreshToken : isNullOrEmpty ticket.tokens.refreshToken = false

structure Inv (w : World) : Prop where
  holds : ∃ ticket, HoldsTicket w key ticket ∧ Refreshable expiry ticket
  current : ¬ expiry < toDateTimeOffset w.clock

def protocol : Protocol ℕ World where
  inv := Inv key expiry
  guar _ _ := True
  rely := SameThread

variable {key : String} {expiry : ℤ} {t : ℕ}

theorem not_expired {w : World} {ticket : AuthenticationTicket} (hr : Refreshable expiry ticket) :
    ¬ Expired w ticket ↔ ¬ expiry < toDateTimeOffset w.clock := by
  simp [Expired, hr.expires]

theorem inv_same {w w' : World} (h : SameStore w w') (hclock : w'.clock = w.clock)
    (hi : Inv key expiry w) : Inv key expiry w' := by
  obtain ⟨ticket, hholds, hr⟩ := hi.holds
  exact ⟨⟨ticket, h.holdsTicket hholds, hr⟩, hclock ▸ hi.current⟩

theorem keeps_quiet {o : Op} {w w' : World} {r : o.Res} (ho : Quiet o) (hi : Inv key expiry w)
    (hx : World.exec t o w r w') : (protocol key expiry).Keeps t w w' :=
  ⟨inv_same (sameStore_of_quiet ho hx) (clock_exec hx) hi, trivial,
    fun _ hne => sameThread_exec hne.symm hx⟩

theorem keepsAll_event {e : Ev} {w w' : World} (hi : Inv key expiry w)
    (hx : (settledSystem key).env e w w') : (protocol key expiry).KeepsAll w w' := by
  refine ⟨?_, trivial, fun u => sameThread_event hx.1.1⟩
  have htick : (∀ ticket, HoldsTicket w key ticket →
      HoldsTicket w' key ticket ∧ ¬ Expired w' ticket) → Inv key expiry w' := by
    intro h
    obtain ⟨ticket, hholds, hr⟩ := hi.holds
    obtain ⟨hholds', hexpired⟩ := h ticket hholds
    exact ⟨⟨ticket, hholds', hr⟩, (not_expired hr).mp hexpired⟩
  cases e with
  | clockTick d => exact htick hx.1.2
  | redisTick d => exact htick hx.1.2
  | keycloakAnswers u response =>
    obtain ⟨request, -, rfl⟩ := hx.1.1
    exact inv_same (w := w) (sameStore_of_eq (fun _ _ => Iff.rfl) rfl rfl) rfl hi

/-- Code that leaves the store alone. -/
theorem triple_quiet {α : Type} {p : Code α} {ψ : α → Prop} (φ : Prop) (h : p.Performs Quiet ψ) :
    (protocol key expiry).Triple (settledSystem key) t (fun _ => φ) p fun x _ =>
      φ ∧ ∀ a, x = .ok a → ψ a :=
  Protocol.Triple.of_performs (Protocol.stable_const φ)
    (h.mono (fun _ ho _ _ _ hi hw hx => ⟨keeps_quiet ho hi hx.1.1, hw⟩) fun _ h => h)

/-! ## Reads -/

/-- A read finds a ticket of the session and changes nothing else. -/
theorem read_exec {w w' : World} {r : Except Exn (Option RedisValue)} (hi : Inv key expiry w)
    (hx : (settledSystem key).exec t (.stringGet (ticketKeyName key)) w r w') :
    (protocol key expiry).Keeps t w w' ∧ ∃ ticket, HoldsTicket w key ticket ∧
      Refreshable expiry ticket ∧ r = .ok (some (protect key ticket)) ∧
      w'.events t = .fetched (ticketKeyName key) (some (protect key ticket)) :: w.events t := by
  obtain ⟨⟨hexec, v, hv⟩, -⟩ := hx
  obtain ⟨ticket, hholds, hr⟩ := hi.holds
  refine ⟨keeps_quiet (o := .stringGet _) trivial hi hexec, ticket, hholds, hr, ?_⟩
  rcases hexec with ⟨hok, rfl⟩ | ⟨e, he, -⟩
  · rw [hholds] at hok ⊢
    exact ⟨hok, events_of_history_cons rfl⟩
  · cases hv.symm.trans he

theorem triple_retrieve {A : World → Prop} {B : AuthenticationTicket → World → Prop}
    (hA : (protocol key expiry).Stable t A)
    (hB : ∀ w r w' ticket, Inv key expiry w → A w →
      (settledSystem key).exec t (.stringGet (ticketKeyName key)) w r w' → HoldsTicket w key ticket →
      Refreshable expiry ticket →
      w'.events t = .fetched (ticketKeyName key) (some (protect key ticket)) :: w.events t →
      B ticket w') :
    (protocol key expiry).Triple (settledSystem key) t A (retrieveAsync key) fun x w =>
      ∃ ticket, x = .ok (some ticket) ∧ Refreshable expiry ticket ∧ B ticket w := by
  refine Protocol.Triple.call (fun r w => ∃ ticket, r = .ok (some (protect key ticket)) ∧
    Refreshable expiry ticket ∧ B ticket w) hA ?_ fun r => ?_
  · intro w r w' hi hw hx
    obtain ⟨hkeep, ticket, hholds, hr, hres, hevents⟩ := read_exec hi hx
    exact ⟨hkeep, ticket, hres, hr, hB w r w' ticket hi hw hx hholds hr hevents⟩
  · refine Protocol.Triple.of_exists fun ticket => ?_
    refine Protocol.Triple.of_pure (fun _ hw => hw.1) fun hres => ?_
    subst hres
    refine Protocol.Triple.ret fun w hw => ⟨ticket, ?_, hw.2⟩
    exact congrArg _ (unprotect_protect key ticket)

/-! ## The outline -/

def Replied (t : ℕ) (rt : String) (response : HttpResponse) (w : World) : Prop :=
  ∃ past, w.events t = .received (.refresh rt) response :: past

def NotEnded (x : Except Exn AccessTokenResult) : Prop := x ≠ .ok .sessionEnded

def outline (t : ℕ) (expiry : ℤ) : Outline where
  out _ := True
  held _ _ := True
  read _ tk _ := Refreshable expiry tk
  sent _ tk rt w := Refreshable expiry tk ∧ rt ≠ "" ∧ Posted t (.refresh rt) w
  replied _ tk rt resp w := Refreshable expiry tk ∧ rt ≠ "" ∧ Replied t rt resp w
  ended _ x _ := NotEnded x
  post x _ := NotEnded x

theorem stable_posted (rt : String) :
    (protocol key expiry).Stable t (Posted t (.refresh rt)) :=
  fun _ _ h hr => hr.posted h

theorem stable_replied (rt : String) (response : HttpResponse) :
    (protocol key expiry).Stable t (Replied t rt response) := by
  intro w w' h hr
  unfold Replied
  rw [hr.events]
  exact h

theorem read_any {A : World → Prop} (hA : (protocol key expiry).Stable t A)
    (hstep : ∀ w r w', A w → (settledSystem key).exec t (.stringGet (ticketKeyName key)) w r w' → A w') :
    Outline.ReadTriple (protocol key expiry) (settledSystem key) t A (retrieveAsync key)
      (fun tk w => Refreshable expiry tk ∧ A w) fun x _ => NotEnded x := by
  refine (triple_retrieve (B := fun _ => A) hA ?_).conseq (fun _ h => h) ?_
  · exact fun w r w' _ _ hw hx _ _ _ => hstep w r w' hw hx
  · intro x w hx
    obtain ⟨ticket, rfl, hr, hw⟩ := hx
    exact ⟨hr, hw⟩

/-- The cookie handler finds a ticket that is not past its expiry. -/
theorem triple_authenticate :
    Outline.ReadTriple (protocol key expiry) (settledSystem key) t (fun _ => True)
      (authenticateAsync key) (fun _ _ => True) fun x _ => NotEnded x := by
  refine Protocol.Triple.bind _ (read_any (Protocol.stable_const True) fun _ _ _ _ _ => trivial) ?_
    fun _ _ hw => hw
  intro ticket
  match ticket with
  | none => exact Protocol.Triple.ret fun _ hw => hw
  | some tk =>
    refine Protocol.Triple.of_pure (fun _ hw => hw.1) fun hr => ?_
    refine Protocol.Triple.call (fun now _ => ¬ expiry < toDateTimeOffset now)
      (fun _ _ hw _ => hw) ?_ fun now => ?_
    · intro w now w' hi _ hx
      have hexec := hx.1.1
      refine ⟨keeps_quiet (o := .getCurrentInstant) trivial hi hexec, ?_⟩
      obtain ⟨rfl, rfl⟩ := hexec
      exact hi.current
    · refine Protocol.Triple.of_pure (fun _ hw => hw) fun hnow => ?_
      have hexpired : tk.expiresUtc.any (fun e => decide (e < toDateTimeOffset now)) = false := by
        simpa [hr.expires] using hnow
      dsimp only [Prog.ret_bind]
      rw [if_neg (by simp [hexpired])]
      exact Protocol.Triple.ret fun _ _ => trivial

/-- After a refusal, a settled race ends with the other holder's token. -/
theorem triple_handleInvalidGrant {rt body : String}
    (hbody : bodyContains body invalidGrantMarker = true) :
    (protocol key expiry).Triple (settledSystem key) t (Replied t rt (.status 400 body))
      (handleInvalidGrantAsync key rt) fun x _ => NotEnded x := by
  refine Protocol.Triple.bind _ (triple_retrieve (B := fun tk w =>
    tk.tokens.refreshToken ≠ some rt ∧ ReReadAfterRefusal key w t tk) (stable_replied rt _) ?_) ?_ ?_
  · intro w r w' tk _ hw hx hholds _ hevents
    obtain ⟨past, hpast⟩ := hw
    refine ⟨hx.2 rt ⟨body, past, hpast, hbody⟩ tk hholds, rt, body, past, ?_, hbody⟩
    rw [hevents, hpast]
  · intro ticket
    refine Protocol.Triple.of_exists fun tk => ?_
    refine Protocol.Triple.of_pure (fun _ hw => hw.1) fun htk => ?_
    obtain rfl := Except.ok.inj htk
    refine Protocol.Triple.of_pure (fun _ hw => hw.2.2.1) fun hne => ?_
    refine Protocol.Triple.call (fun now _ => (isFresh now tk).isSome) ?_ ?_ fun now => ?_
    · intro w w' hw hr
      obtain ⟨h, hrefresh, hdiffers, sent, b, past, hevents, hb⟩ := hw
      exact ⟨h, hrefresh, hdiffers, sent, b, past, hr.events.trans hevents, hb⟩
    · intro w now w' hi hw hx
      refine ⟨keeps_quiet (o := .getCurrentInstant) trivial hi hx.1.1, ?_⟩
      obtain ⟨rfl, rfl⟩ := hx.1.1
      exact hx.2 tk hw.2.2.2
    · refine Protocol.Triple.of_pure (fun _ hw => hw) fun hfresh => ?_
      obtain ⟨a, ha⟩ := Option.isSome_iff_exists.mp hfresh
      dsimp only [Prog.ret_bind]
      rw [if_pos hne, ha]
      exact Protocol.Triple.ret fun _ _ => by simp [NotEnded]
  · intro e w hw
    obtain ⟨tk, h, -⟩ := hw
    cases h

theorem refreshable_applied {tk : AuthenticationTicket} (h : Refreshable expiry tk) (now : ℤ)
    {a r rt : String} {i : Option String} {x : ℤ} {body : Option (Option TokenResponsePayload)}
    (hrt : rt ≠ "") (hparse : parseSuccess rt body = .success a r i x) :
    Refreshable expiry (applyRefreshedTokens now tk a r i x) := by
  obtain ⟨payload, -, -, -, -, -, -, hr⟩ := parseSuccess_eq_success hparse
  have hne : r ≠ "" := by
    rw [hr]
    split
    · exact hrt
    · rename_i hnull
      simpa [isNullOrEmpty] using hnull
  refine ⟨h.expires, ?_⟩
  rw [applyRefreshedTokens_refreshToken]
  cases htoken : tk.tokens.refreshToken with
  | none => simpa [isNullOrEmpty, htoken] using h.refreshToken
  | some old => simpa [isNullOrEmpty] using hne

/-- The write-back finds the key and leaves a ticket of the session. -/
theorem keeps_write {w w' : World} {tk : AuthenticationTicket} {n : ℤ} {res : Except Exn Bool}
    (hn : 0 < n) (hi : Inv key expiry w) (hr : Refreshable expiry tk)
    (hx : World.exec t (.execute (updateTransaction key tk n)) w res w') (a : String) :
    (protocol key expiry).Keeps t w w' ∧ NotEnded (afterWrite a res) := by
  obtain ⟨ticket, hholds, -⟩ := hi.holds
  obtain ⟨hok, hheld⟩ := @holdsTicket_update w t key tk n hn hholds.live
  have hinv : Inv key expiry (w.execute t (updateTransaction key tk n)) :=
    ⟨⟨tk, hheld, hr⟩, hi.current⟩
  have hrely : ∀ u, u ≠ t → SameThread u w w' := fun u hne => sameThread_exec hne.symm hx
  rcases hx with ⟨rfl, rfl⟩ | ⟨e, rfl, rfl | rfl⟩
  · rw [hok]
    exact ⟨⟨hinv, trivial, hrely⟩, by simp [NotEnded, afterWrite]⟩
  · exact ⟨⟨hi, trivial, hrely⟩, by simp [NotEnded, afterWrite]⟩
  · exact ⟨⟨hinv, trivial, hrely⟩, by simp [NotEnded, afterWrite]⟩

theorem valid : (outline t expiry).Valid (protocol key expiry) (settledSystem key) t key where
  within :=
    { exec := fun _ _ _ _ _ hx => hx.1.1
      env := fun _ _ _ hx => hx.1.1 }
  still w hi := ⟨hi, trivial, fun _ _ => ⟨rfl, rfl, .inl rfl, fun _ h => h⟩⟩
  stable_out := Protocol.stable_const True
  stable_read _ tk := Protocol.stable_const (Refreshable expiry tk)
  stable_sent _ tk rt := (Protocol.stable_const (Refreshable expiry tk)).and
    ((Protocol.stable_const (rt ≠ "")).and (stable_posted rt))
  stable_replied _ tk rt resp := (Protocol.stable_const (Refreshable expiry tk)).and
    ((Protocol.stable_const (rt ≠ "")).and (stable_replied rt resp))
  stop _ x _ hx := hx
  authenticate := triple_authenticate
  wait := .of_triple (read_any (Protocol.stable_const True) fun _ _ _ _ _ => trivial)
    (fun _ hw => hw) (fun _ _ _ => trivial) fun _ _ hw => hw
  acquire := (triple_quiet True (tryAcquireAsync_performs key trivial fun _ => ⟨key, rfl⟩)).conseq
    (fun _ h => h) fun x w hw => by
      rcases x with e | (e | (_ | handle))
      · trivial
      · trivial
      · trivial
      · exact ⟨hw.2 _ rfl handle rfl, trivial⟩
  fetch _ := .of_triple (read_any (Protocol.stable_const True) fun _ _ _ _ _ => trivial)
    (fun _ hw => hw) (fun _ _ hw => hw.1) fun _ _ hw => hw
  read_stop _ _ _ _ _ hx := hx
  read_none _ tk w hr hnull := absurd hnull (by simp [hr.refreshToken])
  send _ tk w r w' hnull hi hr hx := by
    refine ⟨keeps_quiet (o := .send _) (r := r) trivial hi hx.1.1, hr, ?_, ?_⟩
    · simpa [isNullOrEmpty] using hnull
    · obtain rfl := hx.1.1
      exact .inl (by simp)
  reply _ tk rt w r w' hi hw hx := by
    refine ⟨keeps_quiet (o := .response) trivial hi hx.1.1, ?_⟩
    obtain ⟨hr, hne, hposted⟩ := hw
    rcases hx.1.1 with ⟨request, response, hans, rfl, rfl⟩ | ⟨e, rfl, -⟩
    · rcases hposted with hsent | ⟨response', hans'⟩
      · cases hsent.symm.trans hans
      · obtain ⟨rfl, rfl⟩ := Exchange.answered.inj (hans'.symm.trans hans)
        exact ⟨hr, hne, _, events_of_history_cons (w := w) rfl⟩
    · exact fun _ hx => hx
  body _ tk rt resp w r w' hi hw hx := by
    refine ⟨keeps_quiet (o := .readBody) trivial hi hx.1.1, ?_⟩
    obtain ⟨-, rfl⟩ := hx.1.1
    cases r with
    | ok _ => exact hw
    | error e => simp [outline, NotEnded]
  reject _ _ _ _ _ _ _ := by simp [outline, NotEnded]
  write _ tk rt body a r i x hparse now n w res w' hn hi hw hx :=
    keeps_write hn hi (refreshable_applied hw.1 now hw.2.1 hparse) hx.1.1 a
  unwritable _ tk rt body w hnone hw := by simp [outline, NotEnded]
  invalid _ tk rt body hbody :=
    (triple_handleInvalidGrant hbody).conseq (fun _ hw => hw.2.2) fun _ _ hw => hw
  release v x := (triple_quiet (NotEnded x) (disposeAsync_performs _ ⟨key, rfl⟩)).conseq
    (fun _ h => h) fun y w hw => by
      cases y with
      | ok _ => exact hw.1
      | error e => exact ne_of_apply_ne Except.isOk (by simp [Except.isOk, Except.toBool])

theorem triple_get {call : Call} (hcall : Outline.Gets key call) :
    (protocol key expiry).Triple (settledSystem key) t (fun _ => True) call.code
      (Outline.accessPost fun x _ => NotEnded x) :=
  (valid (t := t)).triple_call (Protocol.Triple.of_false fun _ hended => hended rfl) hcall

end HealthySession

/-- A session whose access token is stale at instant 0. -/
def staleTicket : AuthenticationTicket :=
  ⟨none, some 1000000000000, ⟨some "a0", some "r0", none, some (some 0)⟩⟩

def staleWorld : World where
  clock := 0
  redis := ⟨0, fun k => if k = ticketKeyName "a" then
    some ⟨.str (protect "a" staleTicket), some 1000000000000⟩ else none⟩
  keycloak := ⟨["r0"], ["r0"], []⟩
  sessionKeys := []
  lockValues := []
  exchange := fun _ => .idle
  awaiting := fun _ => none
  history := []

theorem signedIn_staleWorld : SignedIn "a" staleTicket staleWorld where
  holds := by decide +kernel
  expires := rfl
  current := by simp [Expired, staleTicket, staleWorld, toDateTimeOffset]
  refreshToken := ⟨"r0", List.mem_cons_self, by decide, rfl⟩
  idle _ := rfl
  history := rfl

def getCalls : ℕ → Call := fun _ => .get "a" 1

/-- Answers without failures are steps of a healthy session. -/
theorem healthy_answer {key : String} {t : ℕ} {o : Op} {w w' : World} {r : o.Res}
    (h : World.answer t o w = some (r, w')) : (healthySystem key).exec t o w r w' := by
  refine ⟨exec_answer h, ?_⟩
  cases o with
  | stringGet k =>
    obtain ⟨rfl, -⟩ := Prod.mk.inj (Option.some.inj h)
    exact ⟨_, rfl⟩
  | _ => trivial

/-- Thread 0 has posted the refresh token under the lock. -/
def holderPosted : State := Config.advance World.answer (initial getCalls staleWorld) 0 10

def holderAnswer : HttpResponse := .ok (some (some ⟨some "a1", some "r1", none, 60⟩))

/-- Keycloak has rotated the token, the lock has expired, and thread 1 posts as well. -/
def secondPosted : State :=
  Config.advance World.answer ⟨holderPosted.threads,
    (holderPosted.shared.keycloakAnswers 0 (.refresh "r0") holderAnswer).redisTick 100000000⟩ 1 10

def secondAnswer : HttpResponse := .status 400 "invalid_grant"

/-- Keycloak has refused the token, and thread 1 has read the ticket again. -/
def secondEnded : State :=
  Config.advance World.answer ⟨secondPosted.threads,
    secondPosted.shared.keycloakAnswers 1 (.refresh "r0") secondAnswer⟩ 1 5

end Decisya.Bff
