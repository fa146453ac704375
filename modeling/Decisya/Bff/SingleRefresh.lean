import Decisya.Bff.HealthySession

/-!
# One refresh at a time, and no token twice

While a thread is inside its critical section the lock key holds its own value, so two
threads of one session are never inside together; every post of a refresh token is
made inside. A refresh token is read under the lock, and what was written back before
that is a token that was never sent.
-/

namespace Decisya.Bff

set_option autoImplicit false

open Concurrency Redis

/-- `t` obtained the lock of the session under this value and has not let go of it. -/
def Inside (w : World) (t : ℕ) (key value : String) : Prop :=
  (t, Event.locked (lockKeyName key) value) ∈ w.history ∧
    (t, Event.released (lockKeyName key) value) ∉ w.history

def LockHeld (w : World) (key value : String) : Prop :=
  w.redis.get? (lockKeyName key) = some (.lock value)

/-- No lock expires while its holder is inside, and each success of a refresh carries a
refresh token that Keycloak never issued before. -/
def lockedSystem : System ℕ Op Op.Res Ev World :=
  system.restrict (fun _ _ _ _ _ => True) fun e w w' => match e with
    | .redisTick _ => ∀ t key v, Inside w t key v → LockHeld w key v → LockHeld w' key v
    | .keycloakAnswers t response => ∀ rt payload, w.exchange t = .sent (.refresh rt) →
      response = .ok (some (some payload)) →
      ∃ r, payload.refreshToken = some r ∧ r ≠ "" ∧ r ∉ w.keycloak.issued
    | .clockTick _ => True

/-- A run on one session: `GetAsync`, alone or behind the middleware, or a logout. -/
inductive OnSession (key : String) : Call → Prop where
  | gets {call : Call} (h : Outline.Gets key call) : OnSession key call
  | logout (rounds : ℕ) : OnSession key (.logout key rounds)

/-- The post of this refresh token succeeded, and the write-back after it did. -/
def Spent (w : World) (rt : String) : Prop :=
  ∃ t payload, (t, Event.received (.refresh rt) (.ok (some (some payload)))) ∈ w.history ∧
    ∃ before key ticket expiry,
      (t, Event.executed before (updateTransaction key ticket expiry) true) ∈ w.history

def NeverSent (w : World) (rt : String) : Prop :=
  ∀ t, (t, Event.sent (.refresh rt)) ∉ w.history

/-- Nothing that was spent before is sent. -/
def NoResend (w w' : World) : Prop :=
  ∃ newer, w'.history = newer ++ w.history ∧
    ∀ rt, Spent w rt → ∀ t, (t, Event.sent (.refresh rt)) ∉ newer

/-- Sessions before the calls run: their refresh tokens were issued, each to one. -/
structure Rested (w : World) : Prop where
  history : w.history = []
  awaiting : ∀ t, w.awaiting t = none
  exchange : ∀ t, w.exchange t = .idle
  lockValues : w.lockValues = []
  issued : ∀ key ticket r, HoldsTicket w key ticket → ticket.tokens.refreshToken = some r →
    r ≠ "" → r ∈ w.keycloak.issued
  one : ∀ key key' ticket ticket' r, HoldsTicket w key ticket → HoldsTicket w key' ticket' →
    ticket.tokens.refreshToken = some r → ticket'.tokens.refreshToken = some r → r ≠ "" →
      key = key'

namespace SingleRefresh

/-- The events that the lock invariant speaks of. -/
inductive LockEvent : Event → Prop where
  | locked (key value : String) : LockEvent (.locked key value)
  | released (key value : String) : LockEvent (.released key value)

/-- The events that the token invariant speaks of. -/
inductive TokenEvent : Event → Prop where
  | sent (request : HttpRequest) : TokenEvent (.sent request)
  | received (request : HttpRequest) (response : HttpResponse) :
      TokenEvent (.received request response)
  | wrote (before : Db RedisValue) (key : String) (ticket : AuthenticationTicket) (x : ℤ)
      (ok : Bool) : TokenEvent (.executed before (updateTransaction key ticket x) ok)

theorem spent_mono {w w' : World} {rt : String} (h : Spent w rt)
    (hsub : ∀ x ∈ w.history, x ∈ w'.history) : Spent w' rt := by
  obtain ⟨t, payload, hrec, before, key, ticket, x, hexec⟩ := h
  exact ⟨t, payload, hsub _ hrec, before, key, ticket, x, hsub _ hexec⟩

section Protocol
variable (keyOf : ℕ → String) (w₀ : World)

/-- The refresh tokens of a session: the one it began with, and those Keycloak gave to
its threads. -/
def Known (w : World) (key r : String) : Prop :=
  r ≠ "" ∧ ((∃ ticket, HoldsTicket w₀ key ticket ∧ ticket.tokens.refreshToken = some r) ∨
    ∃ t rt payload, keyOf t = key ∧ payload.refreshToken = some r ∧
      (w.exchange t = .answered (.refresh rt) (.ok (some (some payload))) ∨
        (t, Event.received (.refresh rt) (.ok (some (some payload)))) ∈ w.history))

structure LockInv (w : World) : Prop where
  held : ∀ t key v, Inside w t key v → LockHeld w key v
  drawn : ∀ t key v, (t, Event.locked key v) ∈ w.history → (t, v) ∈ w.lockValues
  drawn_once : ∀ t u v, (t, v) ∈ w.lockValues → (u, v) ∈ w.lockValues → t = u
  refreshing : ∀ t rt, w.awaiting t = some (.refresh rt) → ∃ v, Inside w t (keyOf t) v
  ending : ∀ t rt, w.awaiting t = some (.endSession rt) → ∀ v,
    (t, Event.locked (lockKeyName (keyOf t)) v) ∈ w.history → Inside w t (keyOf t) v

structure TokenInv (w : World) : Prop where
  known : ∀ key ticket r, HoldsTicket w key ticket → ticket.tokens.refreshToken = some r →
    r ≠ "" → Known keyOf w₀ w key r
  issued : ∀ key r, Known keyOf w₀ w key r → r ∈ w.keycloak.issued
  one : ∀ key key' r, Known keyOf w₀ w key r → Known keyOf w₀ w key' r → key = key'
  sent : ∀ t rt, (t, Event.sent (.refresh rt)) ∈ w.history → Known keyOf w₀ w (keyOf t) rt
  received : ∀ t rt response, (t, Event.received (.refresh rt) response) ∈ w.history →
    (t, Event.sent (.refresh rt)) ∈ w.history
  posted : ∀ t rt, Posted t (.refresh rt) w → (t, Event.sent (.refresh rt)) ∈ w.history
  answered : ∀ t rt payload,
    w.exchange t = .answered (.refresh rt) (.ok (some (some payload))) →
    ∃ r, payload.refreshToken = some r ∧ r ≠ "" ∧
      (w.awaiting t = some (.refresh rt) → NeverSent w r)
  spent : ∀ rt key ticket, Spent w rt → HoldsTicket w key ticket →
    ticket.tokens.refreshToken ≠ some rt

structure Inv (w : World) : Prop extends LockInv keyOf w, TokenInv keyOf w₀ w

/-- What `t` relies on: nobody else sends or spends a token of its session while it is
inside. -/
structure Relied (t : ℕ) (w w' : World) : Prop extends SameThread t w w' where
  known : ∀ key r, Known keyOf w₀ w key r → Known keyOf w₀ w' key r
  neverSent : ∀ v r, Inside w t (keyOf t) v → Known keyOf w₀ w (keyOf t) r → NeverSent w r →
    NeverSent w' r
  notSpent : ∀ v r, Inside w t (keyOf t) v → Known keyOf w₀ w (keyOf t) r → ¬ Spent w r →
    ¬ Spent w' r

def protocol : Protocol ℕ World where
  inv := Inv keyOf w₀
  guar := NoResend
  rely := Relied keyOf w₀

variable {keyOf w₀} {t : ℕ}

theorem LockInv.exclusive {w : World} (hi : LockInv keyOf w) {u : ℕ} {key v v' : String}
    (h : Inside w t key v) (h' : Inside w u key v') : t = u := by
  have hv : some (RedisValue.lock v) = some (RedisValue.lock v') :=
    (hi.held t key v h).symm.trans (hi.held u key v' h')
  obtain rfl := RedisValue.lock.inj (Option.some.inj hv)
  exact hi.drawn_once t u v (hi.drawn t _ v h.1) (hi.drawn u _ v h'.1)

theorem TokenInv.spent_sent {w : World} (hi : TokenInv keyOf w₀ w) {rt : String}
    (h : Spent w rt) : ¬ NeverSent w rt := by
  obtain ⟨u, payload, hrec, -⟩ := h
  exact fun hnever => hnever u (hi.received u rt _ hrec)

/-! ## Steps that leave the locks alone -/

structure LockNeutral (w w' : World) : Prop where
  history : ∃ newer, w'.history = newer ++ w.history ∧ ∀ x ∈ newer, ¬ LockEvent x.2
  awaiting : ∀ u, w'.awaiting u = w.awaiting u ∨ w'.awaiting u = none
  lockValues : w'.lockValues = w.lockValues
  locks : ∀ u key v, Inside w u key v → LockHeld w key v → LockHeld w' key v

namespace LockNeutral
variable {w w' : World} (h : LockNeutral w w')
include h

theorem inside {u : ℕ} {key v : String} : Inside w' u key v ↔ Inside w u key v := by
  unfold Inside
  rw [mem_of_newer h.history (.locked _ v), mem_of_newer h.history (.released _ v)]

theorem awaits {u : ℕ} {request : HttpRequest} (ha : w'.awaiting u = some request) :
    w.awaiting u = some request := by
  rcases h.awaiting u with he | he
  · exact he ▸ ha
  · cases he.symm.trans ha

theorem inv (hi : LockInv keyOf w) : LockInv keyOf w' where
  held u key v hin := h.locks u key v (h.inside.mp hin) (hi.held u key v (h.inside.mp hin))
  drawn u key v hmem := h.lockValues ▸ hi.drawn u key v ((mem_of_newer h.history (.locked _ _)).mp hmem)
  drawn_once := h.lockValues ▸ hi.drawn_once
  refreshing u rt ha := by
    obtain ⟨v, hin⟩ := hi.refreshing u rt (h.awaits ha)
    exact ⟨v, h.inside.mpr hin⟩
  ending u rt ha v hmem :=
    h.inside.mpr (hi.ending u rt (h.awaits ha) v ((mem_of_newer h.history (.locked _ _)).mp hmem))

end LockNeutral

/-! ## Steps that leave the tokens alone -/

structure TokenNeutral (w w' : World) : Prop where
  history : ∃ newer, w'.history = newer ++ w.history ∧ ∀ x ∈ newer, ¬ TokenEvent x.2
  exchange : w'.exchange = w.exchange
  awaiting : ∀ u, w'.awaiting u = w.awaiting u ∨ w'.awaiting u = none
  keycloak : w'.keycloak = w.keycloak
  tickets : ∀ key ticket, HoldsTicket w' key ticket → HoldsTicket w key ticket

namespace TokenNeutral
variable {w w' : World} (h : TokenNeutral w w')
include h

theorem spent {rt : String} : Spent w' rt ↔ Spent w rt := by
  have hrec : ∀ u payload,
      (u, Event.received (.refresh rt) (.ok (some (some payload)))) ∈ w'.history ↔
        (u, Event.received (.refresh rt) (.ok (some (some payload)))) ∈ w.history :=
    fun u payload => mem_of_newer h.history (.received _ _)
  have hexec : ∀ u before key ticket x,
      (u, Event.executed before (updateTransaction key ticket x) true) ∈ w'.history ↔
        (u, Event.executed before (updateTransaction key ticket x) true) ∈ w.history :=
    fun u before key ticket x => mem_of_newer h.history (.wrote before key ticket x true)
  simp only [Spent, hrec, hexec]

theorem neverSent {r : String} : NeverSent w' r ↔ NeverSent w r :=
  forall_congr' fun _ => not_congr (mem_of_newer h.history (.sent _))

theorem knownIff {key r : String} : Known keyOf w₀ w' key r ↔ Known keyOf w₀ w key r := by
  have hrec : ∀ u rt payload,
      (u, Event.received (.refresh rt) (.ok (some (some payload)))) ∈ w'.history ↔
        (u, Event.received (.refresh rt) (.ok (some (some payload)))) ∈ w.history :=
    fun u rt payload => mem_of_newer h.history (.received _ _)
  simp only [Known, hrec, h.exchange]

theorem inv (hi : TokenInv keyOf w₀ w) : TokenInv keyOf w₀ w' where
  known key ticket r hholds hr hne :=
    h.knownIff.mpr (hi.known key ticket r (h.tickets key ticket hholds) hr hne)
  issued key r hk := h.keycloak ▸ hi.issued key r (h.knownIff.mp hk)
  one key key' r hk hk' := hi.one key key' r (h.knownIff.mp hk) (h.knownIff.mp hk')
  sent u rt hmem := h.knownIff.mpr (hi.sent u rt ((mem_of_newer h.history (.sent _)).mp hmem))
  received u rt response hmem := (mem_of_newer h.history (.sent _)).mpr
    (hi.received u rt response ((mem_of_newer h.history (.received _ _)).mp hmem))
  posted u rt hp := (mem_of_newer h.history (.sent _)).mpr (hi.posted u rt (by
    unfold Posted at hp ⊢
    exact h.exchange ▸ hp))
  answered u rt payload hans := by
    obtain ⟨r, hr, hne, hnever⟩ := hi.answered u rt payload (h.exchange ▸ hans)
    refine ⟨r, hr, hne, fun ha => h.neverSent.mpr (hnever ?_)⟩
    rcases h.awaiting u with he | he
    · exact he ▸ ha
    · cases he.symm.trans ha
  spent rt key ticket hs hholds :=
    hi.spent rt key ticket (h.spent.mp hs) (h.tickets key ticket hholds)

theorem noResend : NoResend w w' := by
  obtain ⟨newer, hnew, hnot⟩ := h.history
  exact ⟨newer, hnew, fun rt _ u hmem => hnot _ hmem (.sent _)⟩

theorem relied {u : ℕ} (hsame : SameThread u w w') : Relied keyOf w₀ u w w' where
  toSameThread := hsame
  known _ _ hk := h.knownIff.mpr hk
  neverSent _ _ _ _ hnever := h.neverSent.mpr hnever
  notSpent _ _ _ _ hnot hs := hnot (h.spent.mp hs)

theorem keeps (hi : Inv keyOf w₀ w) (hlock : LockInv keyOf w') {o : Op} {r : o.Res}
    (hx : World.exec t o w r w') : (protocol keyOf w₀).Keeps t w w' :=
  ⟨⟨hlock, h.inv hi.toTokenInv⟩, h.noResend, fun _ hne => h.relied (sameThread_exec hne.symm hx)⟩

end TokenNeutral

/-! ## Single operations -/

theorem find?_lock_execute {db : Db RedisValue} {txn : Transaction} (h : OnGivenKey txn)
    (key : String) : (db.execute txn).2.find? (lockKeyName key) = db.find? (lockKeyName key) := by
  refine Db.find?_execute_ne db txn fun c hc => ?_
  cases h with
  | update k ticket x =>
    obtain rfl := List.mem_singleton.mp hc
    exact lockKeyName_ne_ticketKeyName key k
  | remove k sid =>
    rcases List.mem_cons.mp hc with rfl | hc
    · exact lockKeyName_ne_ticketKeyName key k
    · cases sid with
      | none => simp at hc
      | some s =>
        obtain rfl := List.mem_singleton.mp hc
        exact lockKeyName_ne_sessionIdSetKeyName key s
  | removeAll s members =>
    rcases mem_removeAll_commands.mp hc with ⟨m, -, rfl⟩ | rfl
    · exact lockKeyName_ne_ticketKeyName key m
    · exact lockKeyName_ne_sessionIdSetKeyName key s

theorem lockHeld_of_find? {w w' : World} {key v : String}
    (h : w'.redis.find? (lockKeyName key) = w.redis.find? (lockKeyName key))
    (hheld : LockHeld w key v) : LockHeld w' key v := by
  obtain ⟨d, hd⟩ := Db.get?_eq_some.mp hheld
  exact Db.get?_eq_some.mpr ⟨d, h.trans hd⟩

theorem holds_of_find? {w w' : World} {key : String} {ticket : AuthenticationTicket}
    (h : w'.redis.find? (ticketKeyName key) = w.redis.find? (ticketKeyName key))
    (hholds : HoldsTicket w' key ticket) : HoldsTicket w key ticket := by
  obtain ⟨d, hd⟩ := Db.get?_eq_some.mp hholds
  exact Db.get?_eq_some.mpr ⟨d, h ▸ hd⟩

theorem holds_remove {w : World} {key k : String} {sid : Option String}
    {ticket : AuthenticationTicket}
    (h : HoldsTicket (w.execute t (removeTransaction key sid)) k ticket) :
    HoldsTicket w k ticket := by
  obtain ⟨d, hd⟩ := Db.get?_eq_some.mp h
  have hfind := (find?_remove_ticket w.redis key k sid).symm.trans hd
  split at hfind
  · cases hfind
  · exact Db.get?_eq_some.mpr ⟨d, hfind⟩

theorem removeTransaction_ne_update {key key' : String} {sid : Option String}
    {ticket : AuthenticationTicket} {x : ℤ} :
    removeTransaction key sid ≠ updateTransaction key' ticket x := by
  simp [removeTransaction, updateTransaction]

/-- The operations that touch neither locks nor tokens. -/
inductive Plain : Op → Prop where
  | getCurrentInstant : Plain .getCurrentInstant
  | stringGet (key : String) : Plain (.stringGet key)
  | remove (key : String) (sid : Option String) : Plain (.execute (removeTransaction key sid))
  | deadlineReached : Plain .deadlineReached
  | delay : Plain .delay
  | getConfiguration : Plain .getConfiguration
  | readBody : Plain .readBody

/-- Such an operation adds no event that locks or tokens depend on. -/
theorem plain_history {o : Op} (ho : Plain o) {w w' : World} {r : o.Res}
    (hx : World.exec t o w r w') : ∃ newer, w'.history = newer ++ w.history ∧
      ∀ x ∈ newer, ¬ LockEvent x.2 ∧ ¬ TokenEvent x.2 := by
  rcases history_exec hx with h | ⟨e, hlogs, h⟩
  · exact ⟨[], h, by simp⟩
  · refine ⟨[(t, e)], h, ?_⟩
    intro x hx
    obtain rfl := List.mem_singleton.mp hx
    cases ho <;> cases hlogs
    · exact ⟨nofun, nofun⟩
    · refine ⟨nofun, fun h => ?_⟩
      generalize htxn : removeTransaction _ _ = txn at h
      cases h with
      | wrote => exact removeTransaction_ne_update htxn

theorem plain_rest {o : Op} (ho : Plain o) {w w' : World} {r : o.Res}
    (hx : World.exec t o w r w') : w'.exchange = w.exchange ∧ w'.awaiting = w.awaiting ∧
      w'.keycloak = w.keycloak ∧ w'.lockValues = w.lockValues ∧
      (∀ key v, LockHeld w key v → LockHeld w' key v) ∧
      ∀ key ticket, HoldsTicket w' key ticket → HoldsTicket w key ticket := by
  cases ho with
  | getCurrentInstant | delay | readBody =>
    obtain ⟨-, rfl⟩ := hx
    exact ⟨rfl, rfl, rfl, rfl, fun _ _ h => h, fun _ _ h => h⟩
  | deadlineReached | getConfiguration =>
    obtain rfl := hx
    exact ⟨rfl, rfl, rfl, rfl, fun _ _ h => h, fun _ _ h => h⟩
  | stringGet key =>
    rcases hx with ⟨-, rfl⟩ | ⟨e, -, rfl⟩ <;>
      exact ⟨rfl, rfl, rfl, rfl, fun _ _ h => h, fun _ _ h => h⟩
  | remove key sid =>
    rcases exec_execute hx with rfl | rfl
    · exact ⟨rfl, rfl, rfl, rfl, fun _ _ h => h, fun _ _ h => h⟩
    · refine ⟨rfl, rfl, rfl, rfl, fun k v h => ?_, fun k tk h => holds_remove h⟩
      exact lockHeld_of_find? (find?_lock_execute (.remove key sid) k) h

theorem keeps_plain {o : Op} (ho : Plain o) {w w' : World} {r : o.Res} (hi : Inv keyOf w₀ w)
    (hx : World.exec t o w r w') : (protocol keyOf w₀).Keeps t w w' := by
  obtain ⟨newer, hnew, hnot⟩ := plain_history ho hx
  obtain ⟨hexch, hawait, hkc, hvalues, hlocks, htickets⟩ := plain_rest ho hx
  have hlock : LockNeutral w w' :=
    ⟨⟨newer, hnew, fun x hx => (hnot x hx).1⟩, fun u => .inl (by rw [hawait]), hvalues,
      fun _ key v _ => hlocks key v⟩
  have htoken : TokenNeutral w w' :=
    ⟨⟨newer, hnew, fun x hx => (hnot x hx).2⟩, hexch, fun u => .inl (by rw [hawait]), hkc,
      htickets⟩
  exact htoken.keeps hi (hlock.inv hi.toLockInv) hx

theorem keeps_still {w : World} (hi : Inv keyOf w₀ w) : (protocol keyOf w₀).Keeps t w w :=
  keeps_plain (o := .getCurrentInstant) .getCurrentInstant hi (r := w.clock) ⟨rfl, rfl⟩

/-- A step on lock keys only. -/
theorem tokenNeutral_lock {w w' : World} {key : String}
    (hist : ∃ newer, w'.history = newer ++ w.history ∧ ∀ x ∈ newer, ¬ TokenEvent x.2)
    (hexch : w'.exchange = w.exchange) (hawait : w'.awaiting = w.awaiting)
    (hkc : w'.keycloak = w.keycloak)
    (hredis : ∀ k, k ≠ lockKeyName key → w'.redis.find? k = w.redis.find? k) :
    TokenNeutral w w' :=
  ⟨hist, hexch, fun u => .inl (by rw [hawait]), hkc, fun k tk h =>
    holds_of_find? (hredis _ (lockKeyName_ne_ticketKeyName key k).symm) h⟩

theorem keeps_newGuid {w w' : World} {v : String} (hi : Inv keyOf w₀ w)
    (hx : World.exec t .newGuid w v w') : (protocol keyOf w₀).Keeps t w w' ∧
      (t, v) ∈ w'.lockValues := by
  obtain ⟨hfresh, rfl⟩ := hx
  have htoken : TokenNeutral w { w with lockValues := (t, v) :: w.lockValues } :=
    @tokenNeutral_lock w _ "" ⟨[], rfl, by simp⟩ rfl rfl rfl fun _ _ => rfl
  refine ⟨htoken.keeps hi ?_ (o := .newGuid) ⟨hfresh, rfl⟩, List.mem_cons_self⟩
  refine ⟨hi.held, fun u key v' hmem => List.mem_cons_of_mem _ (hi.drawn u key v' hmem), ?_,
    hi.refreshing, hi.ending⟩
  intro u u' v' h h'
  rcases List.mem_cons.mp h with h | h <;> rcases List.mem_cons.mp h' with h' | h'
  · exact (Prod.mk.inj h).1.trans (Prod.mk.inj h').1.symm
  · exact absurd ((Prod.mk.inj h).2 ▸ h') (hfresh u')
  · exact absurd ((Prod.mk.inj h').2 ▸ h) (hfresh u)
  · exact hi.drawn_once u u' v' h h'

/-- `t` has had nothing to do with locks. -/
def NoLocks (t : ℕ) (w : World) : Prop := ∀ e ∈ w.events t, ¬ LockEvent e

theorem NoLocks.not_inside {w : World} (h : NoLocks t w) {key v : String} : ¬ Inside w t key v :=
  fun hin => h _ (mem_events.mpr hin.1) (.locked _ _)

theorem lockHeld_lockTake {w : World} {key v k v' : String} {ttl : ℤ}
    (hheld : LockHeld w k v') : LockHeld (w.lockTake (lockKeyName key) v ttl) k v' := by
  by_cases hk : k = key
  · subst hk
    obtain ⟨d, hd⟩ := Db.get?_eq_some.mp hheld
    have hsame : (w.redis.setNx (lockKeyName k) (.lock v) ttl).2 = w.redis := by
      simp [Db.setNx, hd]
    unfold LockHeld World.lockTake
    rw [hsame]
    exact hheld
  · exact lockHeld_of_find?
      (Db.find?_setNx_ne w.redis _ _ fun h => hk (lockKeyName_inj.mp h)) hheld

theorem lockHeld_taken {w : World} {key v : String} (h : w.redis.find? (lockKeyName key) = none) :
    LockHeld (w.lockTake (lockKeyName key) v lockTtl) key v := by
  have hlive : Db.live w.redis.now
      (⟨.str (.lock v), some (w.redis.now + lockTtl)⟩ : Entry RedisValue) = true :=
    Db.live_within _ (by decide)
  refine Db.get?_eq_some.mpr ⟨some (w.redis.now + lockTtl), ?_⟩
  have hset : (w.lockTake (lockKeyName key) v lockTtl).redis =
      w.redis.apply (.set (lockKeyName key) (.lock v) lockTtl) := by
    simp [World.lockTake, Db.setNx, h]
  rw [hset]
  change (w.redis.put _ _).find? _ = _
  rw [Db.find?_put_self]
  exact Option.filter_eq_some_iff.mpr ⟨rfl, hlive⟩

/-- Taking the lock without being told so: nobody who is inside loses it. -/
theorem keeps_lockTake_silent {w : World} {key v : String} {ttl : ℤ} (hi : Inv keyOf w₀ w)
    {r : Except Exn Bool} (hx : World.exec t (.lockTake (lockKeyName key) v ttl) w r
      (w.lockTake (lockKeyName key) v ttl)) :
    (protocol keyOf w₀).Keeps t w (w.lockTake (lockKeyName key) v ttl) := by
  have htoken : TokenNeutral w (w.lockTake (lockKeyName key) v ttl) :=
    tokenNeutral_lock ⟨[], rfl, by simp⟩ rfl rfl rfl
      fun k hk => Db.find?_setNx_ne w.redis _ _ hk
  have hlock : LockNeutral w (w.lockTake (lockKeyName key) v ttl) :=
    ⟨⟨[], rfl, by simp⟩, fun _ => .inl rfl, rfl, fun _ _ _ _ h => lockHeld_lockTake h⟩
  exact htoken.keeps hi (hlock.inv hi.toLockInv) hx

theorem inside_locked {w w' : World} {u : ℕ} {key v k v' : String}
    (h : w'.history = (t, .locked (lockKeyName key) v) :: w.history) :
    Inside w' u k v' ↔ (Inside w u k v' ∨
      (u = t ∧ k = key ∧ v' = v ∧ (t, Event.released (lockKeyName key) v) ∉ w.history)) := by
  unfold Inside
  rw [h]
  simp only [List.mem_cons, Prod.mk.injEq, Event.locked.injEq, lockKeyName_inj, reduceCtorEq,
    and_false, false_or]
  constructor
  · intro hin
    obtain ⟨⟨rfl, rfl, rfl⟩ | hmem, hnot⟩ := hin
    · exact .inr ⟨rfl, rfl, rfl, hnot⟩
    · exact .inl ⟨hmem, hnot⟩
  · intro hin
    rcases hin with ⟨hmem, hnot⟩ | ⟨rfl, rfl, rfl, hnot⟩
    · exact ⟨.inr hmem, hnot⟩
    · exact ⟨.inl ⟨rfl, rfl, rfl⟩, hnot⟩

/-- Obtaining the lock. -/
theorem keeps_lockTake {w w' : World} {key v : String} {r : Except Exn Bool}
    (hi : Inv keyOf w₀ w) (hnone : NoLocks t w) (hawait : w.awaiting t = none)
    (hv : (t, v) ∈ w.lockValues)
    (hx : World.exec t (.lockTake (lockKeyName key) v lockTtl) w r w') :
    (protocol keyOf w₀).Keeps t w w' ∧ (r = .ok true → Inside w' t key v) ∧
      (r ≠ .ok true → w'.history = w.history) := by
  rcases hx with ⟨rfl, hfree, rfl⟩ | ⟨rfl, -, rfl⟩ | ⟨e, rfl, rfl | rfl⟩
  · have hhist : ((w.lockTake (lockKeyName key) v lockTtl).log t
        (.locked (lockKeyName key) v)).history = (t, .locked (lockKeyName key) v) :: w.history := rfl
    have hunreleased : (t, Event.released (lockKeyName key) v) ∉ w.history :=
      fun h => hnone _ (mem_events.mpr h) (.released _ _)
    have hin : ∀ u k v', Inside _ u k v' ↔ _ := fun u k v' => inside_locked hhist
    have htoken : TokenNeutral w ((w.lockTake (lockKeyName key) v lockTtl).log t
        (.locked (lockKeyName key) v)) :=
      tokenNeutral_lock ⟨[(t, .locked (lockKeyName key) v)], rfl, fun x hx => by
        obtain rfl := List.mem_singleton.mp hx
        exact nofun⟩ rfl rfl rfl fun k hk => Db.find?_setNx_ne w.redis _ _ hk
    refine ⟨htoken.keeps hi ⟨?_, ?_, hi.drawn_once, ?_, ?_⟩ (o := .lockTake _ _ _)
      (.inl ⟨rfl, hfree, rfl⟩), fun _ => (hin t key v).mpr (.inr ⟨rfl, rfl, rfl, hunreleased⟩),
      fun h => absurd rfl h⟩
    · intro u k v' h
      rcases (hin u k v').mp h with h | ⟨rfl, rfl, rfl, -⟩
      · exact lockHeld_lockTake (hi.held u k v' h)
      · exact lockHeld_taken hfree
    · intro u k v' hmem
      rw [hhist] at hmem
      rcases List.mem_cons.mp hmem with h | h
      · obtain ⟨rfl, he⟩ := Prod.mk.inj h
        obtain ⟨rfl, rfl⟩ := Event.locked.inj he
        exact hv
      · exact hi.drawn u k v' h
    · intro u rt ha
      obtain ⟨v', h⟩ := hi.refreshing u rt ha
      exact ⟨v', (hin u _ v').mpr (.inl h)⟩
    · intro u rt ha v' hmem
      have hu : u ≠ t := by
        rintro rfl
        cases hawait.symm.trans ha
      rw [hhist] at hmem
      rcases List.mem_cons.mp hmem with h | h
      · exact absurd (Prod.mk.inj h).1 hu
      · exact (hin u _ v').mpr (.inl (hi.ending u rt ha v' h))
  · exact ⟨keeps_still hi, nofun, fun _ => rfl⟩
  · exact ⟨keeps_still hi, nofun, fun _ => rfl⟩
  · exact ⟨keeps_lockTake_silent hi (.inr (.inr ⟨e, rfl, .inr rfl⟩)), nofun, fun _ => rfl⟩

/-- Letting go of the lock, whether the server hears of it or not. -/
theorem keeps_lockRelease {w w' : World} {key v : String} {r : Except Exn Bool}
    (hi : Inv keyOf w₀ w) (hinside : Inside w t key v) (hawait : w.awaiting t = none)
    (hx : World.exec t (.lockRelease (lockKeyName key) v) w r w') :
    (protocol keyOf w₀).Keeps t w w' := by
  have hhist : w'.history = (t, .released (lockKeyName key) v) :: w.history := by
    rcases hx with ⟨-, rfl⟩ | ⟨e, -, rfl | rfl⟩ <;> rfl
  have hrest : w'.exchange = w.exchange ∧ w'.awaiting = w.awaiting ∧ w'.keycloak = w.keycloak ∧
      w'.lockValues = w.lockValues := by
    rcases hx with ⟨-, rfl⟩ | ⟨e, -, rfl | rfl⟩ <;> exact ⟨rfl, rfl, rfl, rfl⟩
  obtain ⟨hexch, haw, hkc, hvalues⟩ := hrest
  have hredis : ∀ k, k ≠ lockKeyName key → w'.redis.find? k = w.redis.find? k := by
    intro k hk
    rcases hx with ⟨-, rfl⟩ | ⟨e, -, rfl | rfl⟩
    · exact Db.find?_deleteIfEquals_ne w.redis _ hk
    · rfl
    · exact Db.find?_deleteIfEquals_ne w.redis _ hk
  have hold : ∀ u k v', Inside w' u k v' → Inside w u k v' := by
    intro u k v' h
    unfold Inside at h ⊢
    rw [hhist] at h
    refine ⟨?_, fun hmem => h.2 (List.mem_cons_of_mem _ hmem)⟩
    rcases List.mem_cons.mp h.1 with heq | hmem
    · cases (Prod.mk.inj heq).2
    · exact hmem
  have hother : ∀ u k v', u ≠ t → Inside w u k v' → Inside w' u k v' := by
    intro u k v' hu h
    unfold Inside
    rw [hhist]
    refine ⟨List.mem_cons_of_mem _ h.1, fun hmem => ?_⟩
    rcases List.mem_cons.mp hmem with heq | hmem
    · exact hu (Prod.mk.inj heq).1
    · exact h.2 hmem
  have htoken : TokenNeutral w w' := tokenNeutral_lock ⟨[_], hhist, fun x hx => by
    obtain rfl := List.mem_singleton.mp hx
    exact nofun⟩ hexch haw hkc hredis
  refine htoken.keeps hi ⟨?_, ?_, hvalues ▸ hi.drawn_once, ?_, ?_⟩ hx
  · intro u k v' h
    have hk : k ≠ key := by
      -- only `t` is inside this lock, and only under the value it lets go of
      rintro rfl
      obtain rfl := hi.exclusive hinside (hold u k v' h)
      have hv : some (RedisValue.lock v) = some (RedisValue.lock v') :=
        (hi.held t k v hinside).symm.trans (hi.held t k v' (hold t k v' h))
      obtain rfl := RedisValue.lock.inj (Option.some.inj hv)
      exact h.2 (hhist ▸ List.mem_cons_self)
    refine lockHeld_of_find? (hredis _ fun h => hk (lockKeyName_inj.mp h)) (hi.held u k v' ?_)
    exact hold u k v' h
  · intro u k v' hmem
    rw [hhist] at hmem
    rcases List.mem_cons.mp hmem with heq | hmem
    · cases (Prod.mk.inj heq).2
    · exact hvalues ▸ hi.drawn u k v' hmem
  · intro u rt ha
    rw [haw] at ha
    have hu : u ≠ t := by
      rintro rfl
      cases hawait.symm.trans ha
    obtain ⟨v', h⟩ := hi.refreshing u rt ha
    exact ⟨v', hother u _ v' hu h⟩
  · intro u rt ha v' hmem
    rw [haw] at ha
    have hu : u ≠ t := by
      rintro rfl
      cases hawait.symm.trans ha
    rw [hhist] at hmem
    rcases List.mem_cons.mp hmem with heq | hmem
    · cases (Prod.mk.inj heq).2
    · exact hother u _ v' hu (hi.ending u rt ha v' hmem)

/-! ## Posts -/

theorem lockInv_send {w : World} {request : HttpRequest} (hi : LockInv keyOf w)
    (hrefresh : ∀ rt, request = .refresh rt → ∃ v, Inside w t (keyOf t) v)
    (hending : ∀ rt, request = .endSession rt → ∀ v,
      (t, Event.locked (lockKeyName (keyOf t)) v) ∈ w.history → Inside w t (keyOf t) v) :
    LockInv keyOf (afterSend w t request) := by
  have hist : ∃ newer, (afterSend w t request).history = newer ++ w.history ∧
      ∀ x ∈ newer, ¬ LockEvent x.2 := by
    refine ⟨[(t, .sent request)], rfl, fun x hx => ?_⟩
    obtain rfl := List.mem_singleton.mp hx
    exact nofun
  have hin : ∀ u k v, Inside (afterSend w t request) u k v ↔ Inside w u k v := by
    intro u k v
    unfold Inside
    rw [mem_of_newer hist (.locked _ v), mem_of_newer hist (.released _ v)]
  refine ⟨fun u k v h => hi.held u k v ((hin u k v).mp h),
    fun u k v h => hi.drawn u k v ((mem_of_newer hist (.locked _ v)).mp h), hi.drawn_once,
    fun u rt ha => ?_, fun u rt ha v hmem => ?_⟩
  · by_cases hu : u = t
    · subst hu
      obtain ⟨v, h⟩ := hrefresh rt (by simpa [afterSend] using ha)
      exact ⟨v, (hin u _ v).mpr h⟩
    · obtain ⟨v, h⟩ := hi.refreshing u rt (by simpa [afterSend, hu] using ha)
      exact ⟨v, (hin u _ v).mpr h⟩
  · have hmem' := (mem_of_newer hist (.locked _ v)).mp hmem
    by_cases hu : u = t
    · subst hu
      exact (hin u _ v).mpr (hending rt (by simpa [afterSend] using ha) v hmem')
    · exact (hin u _ v).mpr (hi.ending u rt (by simpa [afterSend, hu] using ha) v hmem')

/-- A post of an idle thread adds no token to a session. -/
theorem known_send {w : World} {request : HttpRequest} (hidle : w.exchange t = .idle)
    {key r : String} : Known keyOf w₀ (afterSend w t request) key r ↔ Known keyOf w₀ w key r := by
  have hiff : ∀ u rt payload,
      ((afterSend w t request).exchange u = .answered (.refresh rt) (.ok (some (some payload))) ∨
        (u, Event.received (.refresh rt) (.ok (some (some payload)))) ∈
          (afterSend w t request).history) ↔
      (w.exchange u = .answered (.refresh rt) (.ok (some (some payload))) ∨
        (u, Event.received (.refresh rt) (.ok (some (some payload)))) ∈ w.history) := by
    intro u rt payload
    by_cases hu : u = t
    · subst hu
      simp [afterSend, World.log, hidle]
    · simp [afterSend, World.log, hu]
  simp only [Known, hiff]

theorem spent_send {w : World} {request : HttpRequest} {rt : String} :
    Spent (afterSend w t request) rt ↔ Spent w rt := by
  simp [Spent, afterSend, World.log]

theorem neverSent_send {w : World} {request : HttpRequest} {r : String} :
    NeverSent (afterSend w t request) r ↔ NeverSent w r ∧ request ≠ .refresh r := by
  simp only [NeverSent, afterSend, World.log, List.mem_cons, Prod.mk.injEq, Event.sent.injEq]
  constructor
  · intro h
    exact ⟨fun u hmem => h u (.inr hmem), fun heq => h t (.inl ⟨rfl, heq.symm⟩)⟩
  · rintro ⟨h, hne⟩ u hmem
    rcases hmem with ⟨-, heq⟩ | hmem
    · exact hne heq.symm
    · exact h u hmem

theorem tokenInv_send {w : World} {request : HttpRequest} (hi : Inv keyOf w₀ w)
    (hidle : w.exchange t = .idle)
    (hrefresh : ∀ rt, request = .refresh rt → Known keyOf w₀ w (keyOf t) rt ∧
      ∃ v, Inside w t (keyOf t) v) :
    TokenInv keyOf w₀ (afterSend w t request) where
  known key ticket r hholds hr hne := (known_send hidle).mpr (hi.known key ticket r hholds hr hne)
  issued key r hk := hi.issued key r ((known_send hidle).mp hk)
  one key key' r hk hk' := hi.one key key' r ((known_send hidle).mp hk) ((known_send hidle).mp hk')
  sent u rt hmem := by
    rw [known_send hidle]
    rcases List.mem_cons.mp hmem with heq | hmem
    · obtain ⟨rfl, he⟩ := Prod.mk.inj heq
      exact (hrefresh rt (Event.sent.inj he).symm).1
    · exact hi.sent u rt hmem
  received u rt response hmem := by
    rcases List.mem_cons.mp hmem with heq | hmem
    · cases (Prod.mk.inj heq).2
    · exact List.mem_cons_of_mem _ (hi.received u rt response hmem)
  posted u rt hp := by
    by_cases hu : u = t
    · subst hu
      have hreq : request = .refresh rt := by
        rcases hp with hp | ⟨response, hp⟩
        · exact Exchange.sent.inj (by simpa [afterSend] using hp)
        · simp [afterSend] at hp
      exact hreq ▸ List.mem_cons_self
    · refine List.mem_cons_of_mem _ (hi.posted u rt ?_)
      simpa [Posted, afterSend, hu] using hp
  answered u rt payload hans := by
    by_cases hu : u = t
    · subst hu
      simp [afterSend] at hans
    · have hans' : w.exchange u = .answered (.refresh rt) (.ok (some (some payload))) := by
        simpa [afterSend, hu] using hans
      obtain ⟨r, hr, hne, hnever⟩ := hi.answered u rt payload hans'
      refine ⟨r, hr, hne, fun ha => neverSent_send.mpr ?_⟩
      have ha' : w.awaiting u = some (.refresh rt) := by simpa [afterSend, hu] using ha
      refine ⟨hnever ha', fun hreq => ?_⟩
      -- the token that `u` is about to get belongs to its session, and `u` is inside
      obtain ⟨hk, v, hin⟩ := hrefresh r hreq
      have hk' : Known keyOf w₀ w (keyOf u) r :=
        ⟨hne, .inr ⟨u, rt, payload, rfl, hr, .inl hans'⟩⟩
      obtain ⟨v', hin'⟩ := hi.refreshing u rt ha'
      rw [hi.one _ _ _ hk' hk] at hin'
      exact hu (hi.exclusive hin' hin)
  spent rt key ticket hs hholds := hi.spent rt key ticket (spent_send.mp hs) hholds

theorem keeps_send {w : World} {request : HttpRequest} (hi : Inv keyOf w₀ w)
    (hidle : w.exchange t = .idle)
    (hrefresh : ∀ rt, request = .refresh rt → Known keyOf w₀ w (keyOf t) rt ∧ ¬ Spent w rt ∧
      ∃ v, Inside w t (keyOf t) v)
    (hending : ∀ rt, request = .endSession rt → ∀ v,
      (t, Event.locked (lockKeyName (keyOf t)) v) ∈ w.history → Inside w t (keyOf t) v) :
    (protocol keyOf w₀).Keeps t w (afterSend w t request) := by
  have hsame : ∀ u, u ≠ t → SameThread u w (afterSend w t request) := fun u hu =>
    sameThread_exec (o := .send request) (r := ()) hu.symm rfl
  -- a token sent by `t` is none of another thread's that is inside
  have hnot : ∀ u v r, u ≠ t → Inside w u (keyOf u) v → Known keyOf w₀ w (keyOf u) r →
      request ≠ .refresh r := by
    intro u v r hu hin hk hreq
    obtain ⟨hk', -, v', hin'⟩ := hrefresh r hreq
    rw [hi.one _ _ _ hk hk'] at hin
    exact hu (hi.exclusive hin hin')
  refine ⟨⟨lockInv_send hi.toLockInv (fun rt h => (hrefresh rt h).2.2) hending,
    tokenInv_send hi hidle fun rt h => ⟨(hrefresh rt h).1, (hrefresh rt h).2.2⟩⟩, ?_, ?_⟩
  · refine ⟨[(t, .sent request)], rfl, fun rt hs u hmem => ?_⟩
    obtain ⟨-, he⟩ := Prod.mk.inj (List.mem_singleton.mp hmem)
    exact (hrefresh rt (Event.sent.inj he).symm).2.1 hs
  · intro u hu
    exact
      { toSameThread := hsame u hu
        known := fun _ _ hk => (known_send hidle).mpr hk
        neverSent := fun v r hin hk hnever => neverSent_send.mpr ⟨hnever, hnot u v r hu hin hk⟩
        notSpent := fun _ _ _ _ hns hs => hns (spent_send.mp hs) }

/-- `t` has written no ticket back. -/
def NoWrites (t : ℕ) (w : World) : Prop :=
  ∀ before key ticket x,
    (t, Event.executed before (updateTransaction key ticket x) true) ∉ w.history

theorem known_reply {w : World} {request : HttpRequest} {response : HttpResponse}
    (hans : w.exchange t = .answered request response) {key r : String} :
    Known keyOf w₀ (afterReply w t request response) key r ↔ Known keyOf w₀ w key r := by
  have hiff : ∀ u rt payload,
      ((afterReply w t request response).exchange u =
          .answered (.refresh rt) (.ok (some (some payload))) ∨
        (u, Event.received (.refresh rt) (.ok (some (some payload)))) ∈
          (afterReply w t request response).history) ↔
      (w.exchange u = .answered (.refresh rt) (.ok (some (some payload))) ∨
        (u, Event.received (.refresh rt) (.ok (some (some payload)))) ∈ w.history) := by
    intro u rt payload
    by_cases hu : u = t
    · subst hu
      simp only [afterReply, World.log, Function.update_self, hans, reduceCtorEq, List.mem_cons,
        Prod.mk.injEq, true_and, Event.received.injEq, Exchange.answered.injEq, false_or]
      constructor
      · rintro (⟨h, h'⟩ | h)
        · exact .inl ⟨h.symm, h'.symm⟩
        · exact .inr h
      · rintro (⟨h, h'⟩ | h)
        · exact .inl ⟨h.symm, h'.symm⟩
        · exact .inr h
    · simp [afterReply, World.log, hu]
  simp only [Known, hiff]

theorem spent_reply {w : World} {request : HttpRequest} {response : HttpResponse}
    (hnone : NoWrites t w) {rt : String} :
    Spent (afterReply w t request response) rt ↔ Spent w rt := by
  constructor
  · rintro ⟨u, payload, hrec, before, key, ticket, x, hexec⟩
    have hexec' : (u, Event.executed before (updateTransaction key ticket x) true) ∈ w.history := by
      rcases List.mem_cons.mp hexec with heq | hmem
      · cases (Prod.mk.inj heq).2
      · exact hmem
    rcases List.mem_cons.mp hrec with heq | hmem
    · obtain ⟨rfl, -⟩ := Prod.mk.inj heq
      exact absurd hexec' (hnone before key ticket x)
    · exact ⟨u, payload, hmem, before, key, ticket, x, hexec'⟩
  · exact fun h => spent_mono h fun x hx => List.mem_cons_of_mem _ hx

theorem neverSent_reply {w : World} {request : HttpRequest} {response : HttpResponse} {r : String} :
    NeverSent (afterReply w t request response) r ↔ NeverSent w r := by
  simp [NeverSent, afterReply, World.log]

theorem keeps_reply {w : World} {request : HttpRequest} {response : HttpResponse}
    (hi : Inv keyOf w₀ w) (hans : w.exchange t = .answered request response)
    (hnone : NoWrites t w) :
    (protocol keyOf w₀).Keeps t w (afterReply w t request response) := by
  have hist : ∃ newer, (afterReply w t request response).history = newer ++ w.history ∧
      ∀ x ∈ newer, ¬ LockEvent x.2 := by
    refine ⟨[(t, .received request response)], rfl, fun x hx => ?_⟩
    obtain rfl := List.mem_singleton.mp hx
    exact nofun
  have hlock : LockNeutral w (afterReply w t request response) := by
    refine ⟨hist, fun u => ?_, rfl, fun _ _ _ _ h => h⟩
    by_cases hu : u = t
    · subst hu
      exact .inr (by simp [afterReply])
    · exact .inl (by simp [afterReply, hu])
  have hsame : ∀ u, u ≠ t → SameThread u w (afterReply w t request response) := fun u hu =>
    sameThread_exec (o := .response) (r := .ok response) hu.symm
      (.inl ⟨request, response, hans, rfl, rfl⟩)
  have hexch : ∀ u, u ≠ t → (afterReply w t request response).exchange u = w.exchange u :=
    fun u hu => by simp [afterReply, hu]
  have hidle : (afterReply w t request response).exchange t = .idle := by simp [afterReply]
  refine ⟨⟨hlock.inv hi.toLockInv, ?_⟩, ?_, ?_⟩
  · refine
      { known := fun key ticket r hholds hr hne =>
          (known_reply hans).mpr (hi.known key ticket r hholds hr hne)
        issued := fun key r hk => hi.issued key r ((known_reply hans).mp hk)
        one := fun key key' r hk hk' =>
          hi.one key key' r ((known_reply hans).mp hk) ((known_reply hans).mp hk')
        sent := fun u rt hmem => ?_
        received := fun u rt response' hmem => ?_
        posted := fun u rt hp => ?_
        answered := fun u rt payload h => ?_
        spent := fun rt key ticket hs hholds =>
          hi.spent rt key ticket ((spent_reply hnone).mp hs) hholds }
    · rcases List.mem_cons.mp hmem with heq | hmem
      · cases (Prod.mk.inj heq).2
      · exact (known_reply hans).mpr (hi.sent u rt hmem)
    · rcases List.mem_cons.mp hmem with heq | hmem
      · obtain ⟨rfl, he⟩ := Prod.mk.inj heq
        obtain ⟨rfl, rfl⟩ := Event.received.inj he
        exact List.mem_cons_of_mem _ (hi.posted u rt (.inr ⟨_, hans⟩))
      · exact List.mem_cons_of_mem _ (hi.received u rt response' hmem)
    · have hu : u ≠ t := by
        rintro rfl
        simp [Posted, hidle] at hp
      refine List.mem_cons_of_mem _ (hi.posted u rt ?_)
      simpa [Posted, hexch u hu] using hp
    · have hu : u ≠ t := by
        rintro rfl
        simp [hidle] at h
      obtain ⟨r, hr, hne, hnever⟩ := hi.answered u rt payload (hexch u hu ▸ h)
      refine ⟨r, hr, hne, fun ha => neverSent_reply.mpr (hnever ?_)⟩
      simpa [afterReply, hu] using ha
  · refine ⟨[(t, .received request response)], rfl, fun rt _ u hmem => ?_⟩
    cases (Prod.mk.inj (List.mem_singleton.mp hmem)).2
  · intro u hu
    exact
      { toSameThread := hsame u hu
        known := fun _ _ hk => (known_reply hans).mpr hk
        neverSent := fun _ _ _ _ hnever => neverSent_reply.mpr hnever
        notSpent := fun _ _ _ _ hns hs => hns ((spent_reply hnone).mp hs) }

/-- Giving up on a post. -/
theorem keeps_giveUp {w : World} {e : Exn} (hi : Inv keyOf w₀ w) :
    (protocol keyOf w₀).Keeps t w { w with awaiting := Function.update w.awaiting t none } := by
  have hawait : ∀ u, Function.update w.awaiting t none u = w.awaiting u ∨
      Function.update w.awaiting t none u = none := by
    intro u
    by_cases hu : u = t
    · subst hu
      exact .inr (by simp)
    · exact .inl (by simp [hu])
  have hlock : LockNeutral w { w with awaiting := Function.update w.awaiting t none } :=
    ⟨⟨[], rfl, by simp⟩, hawait, rfl, fun _ _ _ _ h => h⟩
  have htoken : TokenNeutral w { w with awaiting := Function.update w.awaiting t none } :=
    ⟨⟨[], rfl, by simp⟩, rfl, hawait, rfl, fun _ _ h => h⟩
  exact htoken.keeps hi (hlock.inv hi.toLockInv) (o := .response) (r := .error e)
    (.inr ⟨e, rfl, rfl⟩)

/-! ## The write-back -/

theorem holds_update {w : World} {key k : String} {ticket tk : AuthenticationTicket} {x : ℤ}
    (h : HoldsTicket (w.execute t (updateTransaction key ticket x)) k tk) :
    (k = key ∧ tk = ticket) ∨ (k ≠ key ∧ HoldsTicket w k tk) := by
  obtain ⟨d, hd⟩ := Db.get?_eq_some.mp h
  have hfind := (find?_update_ticket w.redis key k ticket x).symm.trans hd
  split at hfind
  · rename_i hcond
    obtain ⟨hw, -⟩ := Option.filter_eq_some_iff.mp hfind
    have hstr : protect key ticket = protect k tk := Data.str.inj (Entry.mk.inj (Option.some.inj hw)).1
    exact .inl ⟨hcond.1, (RedisValue.ticket.inj hstr).2.symm⟩
  · rename_i hcond
    by_cases hk : k = key
    · subst hk
      simp [hfind] at hcond
    · exact .inr ⟨hk, Db.get?_eq_some.mpr ⟨d, hfind⟩⟩

/-- A token that a write-back spends is one that the writer sent. -/
theorem spent_update {w : World} (hi : TokenInv keyOf w₀ w) {txn : Transaction} {rt : String}
    (hs : Spent (w.execute t txn) rt) :
    Spent w rt ∨ (t, Event.sent (.refresh rt)) ∈ w.history := by
  obtain ⟨u, payload, hrec, before, key, ticket, x, hexec⟩ := hs
  have hrec' : (u, Event.received (.refresh rt) (.ok (some (some payload)))) ∈ w.history := by
    rcases List.mem_cons.mp hrec with heq | hmem
    · cases (Prod.mk.inj heq).2
    · exact hmem
  rcases List.mem_cons.mp hexec with heq | hmem
  · obtain ⟨rfl, -⟩ := Prod.mk.inj heq
    exact .inr (hi.received u rt _ hrec')
  · exact .inl ⟨u, payload, hrec', before, key, ticket, x, hmem⟩

/-- Writing a ticket back under the lock, with a token that was never sent. -/
theorem keeps_update {w : World} {ticket : AuthenticationTicket} {x : ℤ} {v : String}
    (hi : Inv keyOf w₀ w) (hin : Inside w t (keyOf t) v)
    (hnew : ∀ r, ticket.tokens.refreshToken = some r →
      Known keyOf w₀ w (keyOf t) r ∧ NeverSent w r) :
    (protocol keyOf w₀).Keeps t w (w.execute t (updateTransaction (keyOf t) ticket x)) := by
  generalize htxn : updateTransaction (keyOf t) ticket x = txn
  have hlock : LockNeutral w (w.execute t txn) := by
    refine ⟨⟨[_], rfl, fun y hy => ?_⟩, fun _ => .inl rfl, rfl, fun u k v' _ h => ?_⟩
    · obtain rfl := List.mem_singleton.mp hy
      exact nofun
    · exact lockHeld_of_find? (find?_lock_execute (htxn ▸ .update _ _ _) k) h
  have hsame : ∀ u, u ≠ t → SameThread u w (w.execute t txn) := fun u hu =>
    sameThread_exec (o := .execute txn) (r := .ok _) hu.symm (.inl ⟨rfl, rfl⟩)
  have hknown : ∀ k r, Known keyOf w₀ (w.execute t txn) k r ↔ Known keyOf w₀ w k r := by
    intro k r
    simp [Known, World.execute, World.log]
  have hnever : ∀ r, NeverSent (w.execute t txn) r ↔ NeverSent w r := by
    intro r
    simp [NeverSent, World.execute, World.log]
  refine ⟨⟨hlock.inv hi.toLockInv, ?_⟩, ?_, ?_⟩
  · refine
      { known := fun k tk r hholds hr hne => ?_
        issued := fun k r hk => hi.issued k r ((hknown k r).mp hk)
        one := fun k k' r hk hk' => hi.one k k' r ((hknown k r).mp hk) ((hknown k' r).mp hk')
        sent := fun u rt hmem => ?_
        received := fun u rt response hmem => ?_
        posted := fun u rt hp => List.mem_cons_of_mem _ (hi.posted u rt hp)
        answered := fun u rt payload hans => ?_
        spent := fun rt k tk hs hholds hrt => ?_ }
    · rw [hknown]
      rcases holds_update (htxn ▸ hholds) with ⟨rfl, rfl⟩ | ⟨-, hold⟩
      · exact (hnew r hr).1
      · exact hi.known k tk r hold hr hne
    · rw [hknown]
      rcases List.mem_cons.mp hmem with heq | hmem
      · cases (Prod.mk.inj heq).2
      · exact hi.sent u rt hmem
    · rcases List.mem_cons.mp hmem with heq | hmem
      · cases (Prod.mk.inj heq).2
      · exact List.mem_cons_of_mem _ (hi.received u rt response hmem)
    · obtain ⟨r, hr, hne, h⟩ := hi.answered u rt payload hans
      exact ⟨r, hr, hne, fun ha => (hnever r).mpr (h ha)⟩
    · rcases holds_update (htxn ▸ hholds) with ⟨rfl, rfl⟩ | ⟨hk, hold⟩
      · -- the new token was never sent, a spent one was
        have hnot := (hnew rt hrt).2
        rcases spent_update hi.toTokenInv hs with hs | hsent
        · exact hi.spent_sent hs hnot
        · exact hnot t hsent
      · rcases spent_update hi.toTokenInv hs with hs | hsent
        · exact hi.spent rt k tk hs hold hrt
        · have hk' := hi.sent t rt hsent
          exact hk (hi.one k (keyOf t) rt (hi.known k tk rt hold hrt hk'.1) hk')
  · refine ⟨[_], rfl, fun rt _ u hmem => ?_⟩
    cases (Prod.mk.inj (List.mem_singleton.mp hmem)).2
  · intro u hu
    refine
      { toSameThread := hsame u hu
        known := fun k r hk => (hknown k r).mpr hk
        neverSent := fun _ r _ _ h => (hnever r).mpr h
        notSpent := fun v' r hin' hk hns hs => ?_ }
    rcases spent_update hi.toTokenInv hs with hs | hsent
    · exact hns hs
    · rw [hi.one _ _ _ hk (hi.sent t r hsent)] at hin'
      exact hu (hi.exclusive hin' hin)

/-! ## Events -/

theorem keepsAll_keycloakAnswers {w : World} {u : ℕ} {request : HttpRequest}
    {response : HttpResponse} (hi : Inv keyOf w₀ w) (hsent : w.exchange u = .sent request)
    (hfresh : ∀ rt payload, w.exchange u = .sent (.refresh rt) →
      response = .ok (some (some payload)) →
      ∃ r, payload.refreshToken = some r ∧ r ≠ "" ∧ r ∉ w.keycloak.issued) :
    (protocol keyOf w₀).KeepsAll w (w.keycloakAnswers u request response) := by
  have hlock : LockNeutral w (w.keycloakAnswers u request response) :=
    ⟨⟨[], rfl, by simp⟩, fun _ => .inl rfl, rfl, fun _ _ _ _ h => h⟩
  have hother : ∀ t, t ≠ u → (w.keycloakAnswers u request response).exchange t = w.exchange t :=
    fun t ht => by simp [World.keycloakAnswers, ht]
  have hself : (w.keycloakAnswers u request response).exchange u = .answered request response := by
    simp [World.keycloakAnswers]
  have hissued : ∀ r ∈ w.keycloak.issued, r ∈ (w.keycloakAnswers u request response).keycloak.issued := by
    intro r hr
    simp only [World.keycloakAnswers, Keycloak.answer]
    split
    · exact List.mem_append_right _ hr
    · exact hr
  have hmono : ∀ k r, Known keyOf w₀ w k r →
      Known keyOf w₀ (w.keycloakAnswers u request response) k r := by
    rintro k r ⟨hne, h | ⟨t, rt, payload, hk, hr, h⟩⟩
    · exact ⟨hne, .inl h⟩
    · refine ⟨hne, .inr ⟨t, rt, payload, hk, hr, ?_⟩⟩
      rcases h with h | h
      · have ht : t ≠ u := by
          rintro rfl
          cases hsent.symm.trans h
        exact .inl ((hother t ht).trans h)
      · exact .inr h
  -- the only new token is the one that Keycloak just issued
  have hnew : ∀ k r, Known keyOf w₀ (w.keycloakAnswers u request response) k r →
      Known keyOf w₀ w k r ∨ (k = keyOf u ∧ r ∉ w.keycloak.issued ∧
        ∃ rt payload, request = .refresh rt ∧ response = .ok (some (some payload)) ∧
          payload.refreshToken = some r) := by
    rintro k r ⟨hne, h | ⟨t, rt, payload, hk, hr, h⟩⟩
    · exact .inl ⟨hne, .inl h⟩
    · rcases h with h | h
      · by_cases ht : t = u
        · subst ht
          obtain ⟨rfl, rfl⟩ := Exchange.answered.inj (hself.symm.trans h)
          obtain ⟨r', hr', -, hnot⟩ := hfresh rt payload hsent rfl
          obtain rfl := Option.some.inj (hr.symm.trans hr')
          exact .inr ⟨hk.symm, hnot, rt, payload, rfl, rfl, hr⟩
        · exact .inl ⟨hne, .inr ⟨t, rt, payload, hk, hr, .inl ((hother t ht) ▸ h)⟩⟩
      · exact .inl ⟨hne, .inr ⟨t, rt, payload, hk, hr, .inr h⟩⟩
  refine ⟨⟨hlock.inv hi.toLockInv, ?_⟩, ⟨[], rfl, by simp⟩, fun t => ?_⟩
  · refine
      { known := fun k tk r hholds hr hne => hmono k r (hi.known k tk r hholds hr hne)
        issued := fun k r hk => ?_
        one := fun k k' r hk hk' => ?_
        sent := fun t rt hmem => hmono _ _ (hi.sent t rt hmem)
        received := hi.received
        posted := fun t rt hp => hi.posted t rt ?_
        answered := fun t rt payload hans => ?_
        spent := hi.spent }
    · rcases hnew k r hk with hk | ⟨-, -, rt, payload, rfl, rfl, hr⟩
      · exact hissued r (hi.issued k r hk)
      · simp [World.keycloakAnswers, Keycloak.answer, hr]
    · rcases hnew k r hk with hk | ⟨rfl, hnot, -⟩ <;> rcases hnew k' r hk' with hk' | ⟨rfl, hnot', -⟩
      · exact hi.one k k' r hk hk'
      · exact absurd (hi.issued k r hk) hnot'
      · exact absurd (hi.issued k' r hk') hnot
      · rfl
    · by_cases ht : t = u
      · subst ht
        rcases hp with hp | ⟨response', hp⟩
        · cases hself.symm.trans hp
        · obtain ⟨rfl, -⟩ := Exchange.answered.inj (hself.symm.trans hp)
          exact .inl hsent
      · unfold Posted at hp ⊢
        exact hother t ht ▸ hp
    · by_cases ht : t = u
      · subst ht
        obtain ⟨rfl, rfl⟩ := Exchange.answered.inj (hself.symm.trans hans)
        obtain ⟨r, hr, hne, hnot⟩ := hfresh rt payload hsent rfl
        exact ⟨r, hr, hne, fun _ t' hmem => hnot (hi.issued _ r (hi.sent t' r hmem))⟩
      · exact hi.answered t rt payload (hother t ht ▸ hans)
  · exact
      { toSameThread := sameThread_event (e := .keycloakAnswers u response)
          ⟨request, hsent, rfl⟩
        known := hmono
        neverSent := fun _ _ _ _ h => h
        notSpent := fun _ _ _ _ h => h }

theorem keepsAll_event {e : Ev} {w w' : World} (hi : Inv keyOf w₀ w)
    (hx : lockedSystem.env e w w') : (protocol keyOf w₀).KeepsAll w w' := by
  have hneutral : w'.history = w.history → w'.exchange = w.exchange → w'.awaiting = w.awaiting →
      w'.keycloak = w.keycloak → w'.lockValues = w.lockValues →
      (∀ u key v, Inside w u key v → LockHeld w key v → LockHeld w' key v) →
      (∀ key ticket, HoldsTicket w' key ticket → HoldsTicket w key ticket) →
      (protocol keyOf w₀).KeepsAll w w' := by
    intro hhist hexch hawait hkc hvalues hlocks htickets
    have hlock : LockNeutral w w' :=
      ⟨⟨[], hhist, by simp⟩, fun u => .inl (by rw [hawait]), hvalues, hlocks⟩
    have htoken : TokenNeutral w w' :=
      ⟨⟨[], hhist, by simp⟩, hexch, fun u => .inl (by rw [hawait]), hkc, htickets⟩
    exact ⟨⟨hlock.inv hi.toLockInv, htoken.inv hi.toTokenInv⟩, htoken.noResend,
      fun u => htoken.relied (sameThread_event hx.1)⟩
  cases e with
  | clockTick d =>
    obtain rfl := hx.1
    exact hneutral rfl rfl rfl rfl rfl (fun _ _ _ _ h => h) fun _ _ h => h
  | redisTick d =>
    obtain rfl := hx.1
    refine hneutral rfl rfl rfl rfl rfl hx.2 fun key ticket h => ?_
    obtain ⟨d', hd⟩ := Db.get?_eq_some.mp h
    exact Db.get?_eq_some.mpr ⟨d', find?_redisTick hd⟩
  | keycloakAnswers u response =>
    obtain ⟨request, hsent, rfl⟩ := hx.1
    exact keepsAll_keycloakAnswers hi hsent hx.2

/-! ## The outline -/

/-- `t` has no post under way and has written nothing back. -/
structure Calm (t : ℕ) (w : World) : Prop where
  awaiting : w.awaiting t = none
  idle : w.exchange t = .idle
  noWrites : NoWrites t w

/-- Every lock of the session that `t` obtained, it still has. -/
def LocksKept (t : ℕ) (key : String) (w : World) : Prop :=
  ∀ v, (t, Event.locked (lockKeyName key) v) ∈ w.history → Inside w t key v

theorem NoLocks.locksKept {w : World} (h : NoLocks t w) (key : String) : LocksKept t key w :=
  fun _ hmem => absurd (.locked _ _) (h _ (mem_events.mpr hmem))

def Held (t : ℕ) (key v : String) (w : World) : Prop :=
  Calm t w ∧ Inside w t key v ∧ LocksKept t key w

def ReadToken (keyOf : ℕ → String) (w₀ : World) (t : ℕ) (ticket : AuthenticationTicket)
    (w : World) : Prop :=
  ∀ r, ticket.tokens.refreshToken = some r → r ≠ "" →
    Known keyOf w₀ w (keyOf t) r ∧ ¬ Spent w r

/-- A refresh token in the response is one that was never sent. -/
def NewToken (keyOf : ℕ → String) (w₀ : World) (t : ℕ) (response : HttpResponse)
    (w : World) : Prop :=
  ∀ payload, response = .ok (some (some payload)) →
    ∃ r, payload.refreshToken = some r ∧ Known keyOf w₀ w (keyOf t) r ∧ NeverSent w r

def AwaitsNothing (t : ℕ) (w : World) : Prop := w.awaiting t = none

def outline (keyOf : ℕ → String) (w₀ : World) (t : ℕ) : Outline where
  out w := Calm t w ∧ NoLocks t w
  held v := Held t (keyOf t) v
  read v tk w := Held t (keyOf t) v w ∧ ReadToken keyOf w₀ t tk w
  sent v _ rt w := w.awaiting t = some (.refresh rt) ∧ Posted t (.refresh rt) w ∧ NoWrites t w ∧
    Inside w t (keyOf t) v
  replied v _ _ resp w := AwaitsNothing t w ∧ Inside w t (keyOf t) v ∧ NewToken keyOf w₀ t resp w
  ended v _ w := AwaitsNothing t w ∧ Inside w t (keyOf t) v
  post _ := AwaitsNothing t

section Stable
variable {w w' : World} (h : SameThread t w w')
include h

theorem same_inside {key v : String} : Inside w' t key v ↔ Inside w t key v := by
  unfold Inside
  rw [h.mem, h.mem]

theorem same_noWrites (hn : NoWrites t w) : NoWrites t w' :=
  fun before key ticket x hmem => hn before key ticket x (h.mem.mp hmem)

theorem same_calm (hc : Calm t w) : Calm t w' :=
  ⟨h.awaiting.trans hc.awaiting, h.idle hc.idle, same_noWrites h hc.noWrites⟩

theorem same_locksKept {key : String} (hk : LocksKept t key w) : LocksKept t key w' :=
  fun v hmem => (same_inside h).mpr (hk v (h.mem.mp hmem))

theorem same_held {key v : String} (hh : Held t key v w) : Held t key v w' :=
  ⟨same_calm h hh.1, (same_inside h).mpr hh.2.1, same_locksKept h hh.2.2⟩

end Stable

section PlainOps
variable {o : Op} (ho : Plain o) {w w' : World} {r : o.Res} (hx : World.exec t o w r w')
include ho hx

theorem plain_inside {key v : String} : Inside w' t key v ↔ Inside w t key v := by
  obtain ⟨newer, hnew, hnot⟩ := plain_history ho hx
  unfold Inside
  rw [mem_of_newer ⟨newer, hnew, fun x hx => (hnot x hx).1⟩ (.locked _ v),
    mem_of_newer ⟨newer, hnew, fun x hx => (hnot x hx).1⟩ (.released _ v)]

theorem plain_calm (hc : Calm t w) : Calm t w' := by
  obtain ⟨newer, hnew, hnot⟩ := plain_history ho hx
  obtain ⟨hexch, hawait, -⟩ := plain_rest ho hx
  refine ⟨hawait ▸ hc.awaiting, hexch ▸ hc.idle, fun before key ticket x hmem => ?_⟩
  exact hc.noWrites before key ticket x
    ((mem_of_newer ⟨newer, hnew, fun x hx => (hnot x hx).2⟩ (.wrote _ _ _ _ _)).mp hmem)

theorem plain_awaits (ha : AwaitsNothing t w) : AwaitsNothing t w' := by
  obtain ⟨-, hawait, -⟩ := plain_rest ho hx
  exact (congrFun hawait t).trans ha

theorem plain_noLocks (hn : NoLocks t w) : NoLocks t w' := by
  obtain ⟨newer, hnew, hnot⟩ := plain_history ho hx
  intro e hmem
  rw [mem_events, hnew] at hmem
  rcases List.mem_append.mp hmem with hmem | hmem
  · exact (hnot _ hmem).1
  · exact hn e (mem_events.mpr hmem)

theorem plain_locksKept {key : String} (hk : LocksKept t key w) : LocksKept t key w' := by
  obtain ⟨newer, hnew, hnot⟩ := plain_history ho hx
  intro v hmem
  refine (plain_inside ho hx).mpr (hk v ?_)
  exact (mem_of_newer ⟨newer, hnew, fun x hx => (hnot x hx).1⟩ (.locked _ v)).mp hmem

theorem plain_held {key v : String} (hh : Held t key v w) : Held t key v w' :=
  ⟨plain_calm ho hx hh.1, (plain_inside ho hx).mpr hh.2.1, plain_locksKept ho hx hh.2.2⟩

end PlainOps

/-- Code of plain operations, under an assertion about the thread's own. -/
theorem triple_plain {α : Type} {p : Code α} {ψ : α → Prop} {A : World → Prop}
    (hsame : ∀ w w', A w → SameThread t w w' → A w')
    (hplain : ∀ o w r w', Plain o → A w → World.exec t o w r w' → A w')
    (h : p.Performs Plain ψ) :
    (protocol keyOf w₀).Triple lockedSystem t A p fun x w => A w ∧ ∀ a, x = .ok a → ψ a := by
  refine Protocol.Triple.of_performs (fun w w' hw hr => hsame w w' hw hr.toSameThread)
    (h.mono (fun o ho w r w' hi hw hx => ?_) fun _ h => h)
  exact ⟨keeps_plain ho hi hx.1, hplain o w r w' ho hw hx.1⟩

theorem triple_out {α : Type} {p : Code α} {ψ : α → Prop} (h : p.Performs Plain ψ) :
    (protocol keyOf w₀).Triple lockedSystem t (fun w => Calm t w ∧ NoLocks t w) p
      fun x w => (Calm t w ∧ NoLocks t w) ∧ ∀ a, x = .ok a → ψ a :=
  triple_plain
    (fun w w' hw hs => ⟨same_calm hs hw.1, fun e hmem => hw.2 e (hs.events ▸ hmem)⟩)
    (fun _ _ _ _ ho hw hx => ⟨plain_calm ho hx hw.1, plain_noLocks ho hx hw.2⟩) h

theorem triple_awaits {α : Type} {p : Code α} {ψ : α → Prop} (h : p.Performs Plain ψ) :
    (protocol keyOf w₀).Triple lockedSystem t (AwaitsNothing t) p
      fun x w => AwaitsNothing t w ∧ ∀ a, x = .ok a → ψ a :=
  triple_plain (fun _ _ hw hs => hs.awaiting.trans hw)
    (fun _ _ _ _ ho hw hx => plain_awaits ho hx hw) h

theorem triple_ended {α : Type} {p : Code α} {ψ : α → Prop} (key v : String)
    (h : p.Performs Plain ψ) :
    (protocol keyOf w₀).Triple lockedSystem t (fun w => AwaitsNothing t w ∧ Inside w t key v) p
      fun x w => (AwaitsNothing t w ∧ Inside w t key v) ∧ ∀ a, x = .ok a → ψ a :=
  triple_plain (fun _ _ hw hs => ⟨hs.awaiting.trans hw.1, (same_inside hs).mpr hw.2⟩)
    (fun _ _ _ _ ho hw hx => ⟨plain_awaits ho hx hw.1, (plain_inside ho hx).mpr hw.2⟩) h

theorem triple_acquire :
    (protocol keyOf w₀).Triple lockedSystem t (outline keyOf w₀ t).out (tryAcquireAsync (keyOf t))
      fun x w => match x with
        | .ok (.ok (some handle)) =>
          handle.lockKey = lockKeyName (keyOf t) ∧ Held t (keyOf t) handle.lockValue w
        | _ => (outline keyOf w₀ t).out w := by
  have hstable : (protocol keyOf w₀).Stable t (outline keyOf w₀ t).out := fun w w' hw hr =>
    ⟨same_calm hr.toSameThread hw.1, fun e hmem => hw.2 e (hr.events ▸ hmem)⟩
  refine Protocol.Triple.call (fun v w => (outline keyOf w₀ t).out w ∧ (t, v) ∈ w.lockValues)
    hstable ?_ fun v => ?_
  · intro w v w' hi hw hx
    obtain ⟨hkeep, hv⟩ := keeps_newGuid hi hx.1
    obtain ⟨-, rfl⟩ := hx.1
    exact ⟨hkeep, ⟨⟨hw.1.awaiting, hw.1.idle, hw.1.noWrites⟩, hw.2⟩, hv⟩
  · refine Protocol.Triple.call (fun r w => (r = .ok true → Held t (keyOf t) v w) ∧
        (r ≠ .ok true → (outline keyOf w₀ t).out w))
      (fun w w' hw hr => ⟨hstable w w' hw.1 hr, hr.lockValues v hw.2⟩) ?_ fun r => ?_
    · intro w r w' hi hw hx
      obtain ⟨⟨hcalm, hnone⟩, hv⟩ := hw
      obtain ⟨hkeep, htrue, hother⟩ := keeps_lockTake hi hnone hcalm.awaiting hv hx.1
      have hcalm' : w'.awaiting t = none ∧ w'.exchange t = .idle := by
        rcases hx.1 with ⟨-, -, rfl⟩ | ⟨-, -, rfl⟩ | ⟨e, -, rfl | rfl⟩ <;>
          exact ⟨hcalm.awaiting, hcalm.idle⟩
      refine ⟨hkeep, ?_⟩
      have hout : r ≠ .ok true → (outline keyOf w₀ t).out w' := by
        intro h
        refine ⟨⟨hcalm'.1, hcalm'.2, ?_⟩, ?_⟩
        · intro before k tk x hmem
          exact hcalm.noWrites before k tk x (hother h ▸ hmem)
        · intro e hmem
          exact hnone e (events_of_history (hother h) t ▸ hmem)
      refine ⟨fun hr => ?_, hout⟩
      subst hr
      have hhist : w'.history = (t, .locked (lockKeyName (keyOf t)) v) :: w.history := by
        rcases hx.1 with ⟨-, -, rfl⟩ | ⟨h, -⟩ | ⟨e, h, -⟩
        · rfl
        · cases h
        · cases h
      refine ⟨⟨hcalm'.1, hcalm'.2, ?_⟩, htrue rfl, ?_⟩
      · intro before k tk x hmem
        rw [hhist] at hmem
        rcases List.mem_cons.mp hmem with heq | hmem
        · cases (Prod.mk.inj heq).2
        · exact hcalm.noWrites before k tk x hmem
      · intro v' hmem
        rw [hhist] at hmem
        rcases List.mem_cons.mp hmem with heq | hmem
        · obtain ⟨-, rfl⟩ := Event.locked.inj (Prod.mk.inj heq).2
          exact htrue rfl
        · exact absurd (.locked _ _) (hnone _ (mem_events.mpr hmem))
    · rcases r with e | (_ | _)
      · exact Protocol.Triple.ret fun w hw => hw.2 (by simp)
      · exact Protocol.Triple.ret fun w hw => hw.2 (by simp)
      · exact Protocol.Triple.ret fun w hw => ⟨rfl, hw.1 rfl⟩

theorem stable_readToken {v : String} (tk : AuthenticationTicket) :
    (protocol keyOf w₀).Stable t fun w =>
      Held t (keyOf t) v w ∧ ReadToken keyOf w₀ t tk w := by
  intro w w' hw hr
  refine ⟨same_held hr.toSameThread hw.1, fun r hrt hne => ?_⟩
  obtain ⟨hk, hns⟩ := hw.2 r hrt hne
  exact ⟨hr.known _ r hk, hr.notSpent v r hw.1.2.1 hk hns⟩

theorem stable_newToken {v : String} (resp : HttpResponse) :
    (protocol keyOf w₀).Stable t fun w =>
      AwaitsNothing t w ∧ Inside w t (keyOf t) v ∧ NewToken keyOf w₀ t resp w := by
  intro w w' hw hr
  refine ⟨hr.awaiting.trans hw.1, (same_inside hr.toSameThread).mpr hw.2.1, fun payload hp => ?_⟩
  obtain ⟨r, hrt, hk, hnever⟩ := hw.2.2 payload hp
  exact ⟨r, hrt, hr.known _ r hk, hr.neverSent v r hw.2.1 hk hnever⟩

/-- The read under the lock: the token it finds belongs to the session and is unspent. -/
theorem triple_fetch (v : String) :
    (protocol keyOf w₀).Triple lockedSystem t (Held t (keyOf t) v) (retrieveAsync (keyOf t))
      fun x w => Held t (keyOf t) v w ∧
        ∀ tk, x = .ok (some tk) → ReadToken keyOf w₀ t tk w := by
  refine triple_retrieveAsync (fun w w' hw hr => same_held hr.toSameThread hw) ?_
  intro w r w' hi hw hx
  have hkeep := keeps_plain (t := t) (.stringGet _) hi hx.1
  refine ⟨hkeep, plain_held (.stringGet _) hx.1 hw, fun tk hr => ?_⟩
  rcases hx.1 with ⟨hres, rfl⟩ | ⟨e, hres, -⟩
  · have hholds : HoldsTicket (w.log t (.fetched (ticketKeyName (keyOf t))
        (w.redis.get? (ticketKeyName (keyOf t))))) (keyOf t) tk :=
      Except.ok.inj (hres.symm.trans hr)
    intro r' hr' hne
    exact ⟨hkeep.inv.known _ tk r' hholds hr' hne, fun hs => hkeep.inv.spent r' _ tk hs hholds hr'⟩
  · cases hres.symm.trans hr

theorem held_ended {v : String} {w : World} (h : Held t (keyOf t) v w) :
    AwaitsNothing t w ∧ Inside w t (keyOf t) v := ⟨h.1.awaiting, h.2.1⟩

/-- The token of the ticket that is written back is the one Keycloak just issued. -/
theorem newToken_applied {tk : AuthenticationTicket} {rt a r : String} {i : Option String}
    {x now : ℤ} {body : Option (Option TokenResponsePayload)} {w : World}
    (hparse : parseSuccess rt body = .success a r i x)
    (hnew : NewToken keyOf w₀ t (.ok body) w) (r' : String)
    (hr' : (applyRefreshedTokens now tk a r i x).tokens.refreshToken = some r') :
    Known keyOf w₀ w (keyOf t) r' ∧ NeverSent w r' := by
  obtain ⟨payload, rfl, -, -, -, -, -, hr⟩ := parseSuccess_eq_success hparse
  obtain ⟨issued, hissued, hk, hnever⟩ := hnew payload rfl
  have heq : r = issued := by
    rw [hr, hissued]
    simp [isNullOrEmpty, hk.1]
  rw [applyRefreshedTokens_refreshToken] at hr'
  obtain ⟨old, -, rfl⟩ := Option.map_eq_some_iff.mp hr'
  exact heq ▸ ⟨hk, hnever⟩

theorem triple_disposeAsync (v : String) :
    (protocol keyOf w₀).Triple lockedSystem t
      (fun w => AwaitsNothing t w ∧ Inside w t (keyOf t) v)
      (LockHandle.disposeAsync ⟨lockKeyName (keyOf t), v⟩) fun _ => AwaitsNothing t := by
  refine Protocol.Triple.bind (fun _ => AwaitsNothing t) ?_
    (fun _ => Protocol.Triple.ret fun _ hw => hw) fun _ _ hw => hw
  refine Protocol.Triple.bind (fun _ => AwaitsNothing t) (Protocol.Triple.perform ?_ ?_)
    (fun _ => Protocol.Triple.ofExcept fun _ hw => hw) fun _ _ hw => hw
  · exact fun w w' hw hr => ⟨hr.awaiting.trans hw.1, (same_inside hr.toSameThread).mpr hw.2⟩
  · intro w r w' hi hw hx
    refine ⟨keeps_lockRelease hi hw.2 hw.1 hx.1, ?_⟩
    rcases hx.1 with ⟨-, rfl⟩ | ⟨e, -, rfl | rfl⟩ <;> exact hw.1

theorem valid : (outline keyOf w₀ t).Valid (protocol keyOf w₀) lockedSystem t (keyOf t) where
  within := System.within_restrict _ _ _
  still w hi := keeps_still hi
  stable_out w w' hw hr :=
    ⟨same_calm hr.toSameThread hw.1, fun e hmem => hw.2 e (hr.events ▸ hmem)⟩
  stable_read v tk := stable_readToken tk
  stable_sent v tk rt w w' hw hr :=
    ⟨hr.awaiting.trans hw.1, hr.posted hw.2.1, same_noWrites hr.toSameThread hw.2.2.1,
      (same_inside hr.toSameThread).mpr hw.2.2.2⟩
  stable_replied v tk rt resp := stable_newToken resp
  stop w x hw _ := hw.1.awaiting
  authenticate := .of_triple (triple_out (authenticateAsync_performs (keyOf t) (.stringGet _)
    .getCurrentInstant fun sid => .remove _ sid)) (fun _ hw => hw.1.1.awaiting)
    (fun _ _ hw => hw.1) fun _ _ hw => hw.1.1.awaiting
  wait := .of_triple (triple_out (retrieveAsync_performs (keyOf t) (.stringGet _)))
    (fun _ hw => hw.1.1.awaiting) (fun _ _ hw => hw.1) fun _ _ hw => hw.1.1.awaiting
  acquire := triple_acquire
  fetch v := .of_triple (triple_fetch v) (fun _ hw => held_ended hw.1)
    (fun tk _ hw => ⟨hw.1, hw.2 tk rfl⟩) fun _ _ hw => held_ended hw.1
  read_stop v tk w x hw _ := held_ended hw.1
  read_none v tk w hw _ := held_ended hw.1
  send v tk w r w' hnull hi hw hx := by
    obtain ⟨⟨hcalm, hin, -⟩, hread⟩ := hw
    generalize hrt : tk.tokens.refreshToken.getD "" = rt at hx
    have hne : rt ≠ "" := by
      rintro rfl
      simp [isNullOrEmpty, hrt] at hnull
    have hsome : tk.tokens.refreshToken = some rt := by
      cases htoken : tk.tokens.refreshToken with
      | none =>
        simp only [htoken, Option.getD_none] at hrt
        exact absurd hrt.symm hne
      | some s => simpa [htoken] using hrt
    obtain ⟨hk, hns⟩ := hread rt hsome hne
    have hw' : w' = afterSend w t (.refresh rt) := hx.1
    subst hw'
    refine ⟨keeps_send hi hcalm.idle (fun rt' h => ?_) (by simp), ?_, ?_, ?_, ?_⟩
    · obtain rfl := HttpRequest.refresh.inj h
      exact ⟨hk, hns, v, hin⟩
    · simp [afterSend]
    · exact .inl (by simp [afterSend])
    · intro before key ticket x hmem
      rcases List.mem_cons.mp hmem with heq | hmem
      · cases (Prod.mk.inj heq).2
      · exact hcalm.noWrites before key ticket x hmem
    · refine ⟨List.mem_cons_of_mem _ hin.1, fun hmem => ?_⟩
      rcases List.mem_cons.mp hmem with heq | hmem
      · cases (Prod.mk.inj heq).2
      · exact hin.2 hmem
  reply v tk rt w r w' hi hw hx := by
    obtain ⟨hawait, hposted, hnone, hin⟩ := hw
    rcases hx.1 with ⟨request, response, hans, rfl, rfl⟩ | ⟨e, rfl, rfl⟩
    · have hreq : request = .refresh rt := by
        rcases hposted with h | ⟨response', h⟩
        · cases h.symm.trans hans
        · exact (Exchange.answered.inj (h.symm.trans hans)).1.symm
      subst hreq
      refine ⟨keeps_reply hi hans hnone, by simp [AwaitsNothing], ?_, fun payload hp => ?_⟩
      · refine ⟨List.mem_cons_of_mem _ hin.1, fun hmem => ?_⟩
        rcases List.mem_cons.mp hmem with heq | hmem
        · cases (Prod.mk.inj heq).2
        · exact hin.2 hmem
      · subst hp
        obtain ⟨r, hr, hne, hnever⟩ := hi.answered t rt payload hans
        refine ⟨r, hr, (known_reply hans).mpr ?_, neverSent_reply.mpr (hnever hawait)⟩
        exact ⟨hne, .inr ⟨t, rt, payload, rfl, hr, .inl hans⟩⟩
    · exact ⟨keeps_giveUp (e := e) hi, fun x _ => ⟨by simp [AwaitsNothing], hin⟩⟩
  body v tk rt resp w r w' hi hw hx := by
    refine ⟨keeps_plain (o := .readBody) .readBody hi hx.1, ?_⟩
    obtain ⟨-, rfl⟩ := hx.1
    cases r with
    | ok _ => exact hw
    | error e => exact ⟨hw.1, hw.2.1⟩
  reject v tk rt resp w _ hw := ⟨hw.1, hw.2.1⟩
  write v tk rt body a r i x hparse now n w res w' _ hi hw hx := by
    obtain ⟨hawait, hin, hnew⟩ := hw
    have hunsent : ∀ r', (applyRefreshedTokens now tk a r i x).tokens.refreshToken = some r' →
        Known keyOf w₀ w (keyOf t) r' ∧ NeverSent w r' := newToken_applied hparse hnew
    have hkeep := keeps_update (x := n) hi hin hunsent
    rcases exec_execute hx.1 with rfl | rfl
    · exact ⟨keeps_still hi, hawait, hin⟩
    · refine ⟨hkeep, hawait, List.mem_cons_of_mem _ hin.1, fun hmem => ?_⟩
      rcases List.mem_cons.mp hmem with heq | hmem
      · cases (Prod.mk.inj heq).2
      · exact hin.2 hmem
  unwritable v tk rt body w _ hw := ⟨hw.1, hw.2.1⟩
  invalid v tk rt body _ := (triple_ended (keyOf t) v (handleInvalidGrantAsync_performs (keyOf t) rt
    (.stringGet _) .getCurrentInstant)).conseq (fun _ hw => ⟨hw.1, hw.2.1⟩) fun _ _ hw => hw.1
  release v x := (triple_disposeAsync v).conseq (fun _ hw => hw) fun y _ hw => by
    cases y <;> exact hw

theorem triple_get {call : Call} (hcall : Outline.Gets (keyOf t) call) :
    (protocol keyOf w₀).Triple lockedSystem t (fun w => Calm t w ∧ NoLocks t w) call.code
      fun _ _ => True := by
  have hvalid : (outline keyOf w₀ t).Valid (protocol keyOf w₀) lockedSystem t (keyOf t) := valid
  refine (hvalid.triple_call ?_ hcall).conseq (fun _ h => h) fun _ _ _ => trivial
  refine (triple_awaits (removeAsync_performs (keyOf t) (.stringGet _)
    fun sid => .remove _ sid)).conseq (fun _ h => h) fun x w hw => ?_
  cases x with
  | ok _ => exact hw.1
  | error e => exact hw.1

/-! ## The logout -/

/-- What `/bff/logout` keeps in its critical section and without one alike. -/
def Ending (t : ℕ) (key : String) (lockValue : Option String) (w : World) : Prop :=
  Calm t w ∧ LocksKept t key w ∧ ∀ v, lockValue = some v → Inside w t key v

theorem stable_ending {key : String} {lk : Option String} :
    (protocol keyOf w₀).Stable t (Ending t key lk) := fun w w' hw hr =>
  ⟨same_calm hr.toSameThread hw.1, same_locksKept hr.toSameThread hw.2.1,
    fun v hv => (same_inside hr.toSameThread).mpr (hw.2.2 v hv)⟩

theorem triple_ending {α : Type} {p : Code α} {ψ : α → Prop} (key : String) (lk : Option String)
    (h : p.Performs Plain ψ) :
    (protocol keyOf w₀).Triple lockedSystem t (Ending t key lk) p
      fun x w => Ending t key lk w ∧ ∀ a, x = .ok a → ψ a :=
  triple_plain
    (fun w w' hw hs => ⟨same_calm hs hw.1, same_locksKept hs hw.2.1,
      fun v hv => (same_inside hs).mpr (hw.2.2 v hv)⟩)
    (fun _ _ _ _ ho hw hx => ⟨plain_calm ho hx hw.1, plain_locksKept ho hx hw.2.1,
      fun v hv => (plain_inside ho hx).mpr (hw.2.2 v hv)⟩) h

/-- After the end-session call, whatever came of it. -/
def Leaving (t : ℕ) (key : String) (lockValue : Option String) (w : World) : Prop :=
  AwaitsNothing t w ∧ ∀ v, lockValue = some v → Inside w t key v

theorem Ending.leaving {key : String} {lk : Option String} {w : World} (h : Ending t key lk w) :
    Leaving t key lk w := ⟨h.1.awaiting, h.2.2⟩

theorem stable_leaving {key : String} {lk : Option String} :
    (protocol keyOf w₀).Stable t (Leaving t key lk) := fun w w' hw hr =>
  ⟨hr.awaiting.trans hw.1, fun v hv => (same_inside hr.toSameThread).mpr (hw.2 v hv)⟩

theorem triple_leaving {α : Type} {p : Code α} {ψ : α → Prop} (key : String) (lk : Option String)
    (h : p.Performs Plain ψ) :
    (protocol keyOf w₀).Triple lockedSystem t (Leaving t key lk) p
      fun x w => Leaving t key lk w ∧ ∀ a, x = .ok a → ψ a :=
  triple_plain
    (fun w w' hw hs => ⟨hs.awaiting.trans hw.1, fun v hv => (same_inside hs).mpr (hw.2 v hv)⟩)
    (fun _ _ _ _ ho hw hx => ⟨plain_awaits ho hx hw.1,
      fun v hv => (plain_inside ho hx).mpr (hw.2 v hv)⟩) h

/-- Logging another event than one of locks leaves the thread inside. -/
theorem inside_log {w w' : World} {key v : String} {e : Event} (he : ¬ LockEvent e)
    (h : w'.history = (t, e) :: w.history) : Inside w' t key v ↔ Inside w t key v := by
  have hist : ∃ newer, w'.history = newer ++ w.history ∧ ∀ x ∈ newer, ¬ LockEvent x.2 := by
    refine ⟨[(t, e)], h, fun x hx => ?_⟩
    obtain rfl := List.mem_singleton.mp hx
    exact he
  unfold Inside
  rw [mem_of_newer hist (.locked _ v), mem_of_newer hist (.released _ v)]

theorem triple_endSessionAsync (lk : Option String) (rt : String) :
    (protocol keyOf w₀).Triple lockedSystem t (Ending t (keyOf t) lk) (endSessionAsync rt)
      fun _ => Leaving t (keyOf t) lk := by
  have hstill : (protocol keyOf w₀).Stable t (Ending t (keyOf t) lk) := stable_ending
  refine Protocol.Triple.call (fun _ => Ending t (keyOf t) lk) hstill ?_ fun r => ?_
  · intro w r w' hi hw hx
    obtain rfl := hx.1
    exact ⟨keeps_still hi, hw⟩
  match r with
  | .error e =>
    dsimp only [Prog.ret_bind]
    split
    · exact Protocol.Triple.ret fun _ hw => hw.leaving
    · exact Protocol.Triple.raise fun _ hw => hw.leaving
  | .ok () =>
    refine Protocol.Triple.call
      (fun _ w => NoWrites t w ∧ ∀ v, lk = some v → Inside w t (keyOf t) v) hstill ?_ fun _ => ?_
    · intro w r w' hi hw hx
      have hw' : w' = afterSend w t (.endSession rt) := hx.1
      subst hw'
      refine ⟨keeps_send hi hw.1.idle nofun fun _ _ => hw.2.1, ?_, fun v hv => ?_⟩
      · intro before key ticket x hmem
        rcases List.mem_cons.mp hmem with heq | hmem
        · cases (Prod.mk.inj heq).2
        · exact hw.1.noWrites before key ticket x hmem
      · exact (inside_log (e := .sent (.endSession rt)) nofun rfl).mpr (hw.2.2 v hv)
    refine Protocol.Triple.call (fun _ => Leaving t (keyOf t) lk) ?_ ?_ fun r => ?_
    · exact fun w w' hw hr => ⟨same_noWrites hr.toSameThread hw.1,
        fun v hv => (same_inside hr.toSameThread).mpr (hw.2 v hv)⟩
    · intro w r w' hi hw hx
      rcases hx.1 with ⟨request, response, hans, rfl, rfl⟩ | ⟨e, rfl, rfl⟩
      · refine ⟨keeps_reply hi hans hw.1, by simp [AwaitsNothing], fun v hv => ?_⟩
        exact (inside_log (e := .received request response) nofun rfl).mpr (hw.2 v hv)
      · exact ⟨keeps_giveUp (e := e) hi, by simp [AwaitsNothing], hw.2⟩
    match r with
    | .error e =>
      dsimp only [Prog.ret_bind]
      split
      · exact Protocol.Triple.ret fun _ hw => hw
      · exact Protocol.Triple.raise fun _ hw => hw
    | .ok (.ok _) => exact Protocol.Triple.ret fun _ hw => hw
    | .ok (.status _ _) => exact Protocol.Triple.ret fun _ hw => hw

theorem triple_endSessionAndSignOut (lk : Option String) :
    (protocol keyOf w₀).Triple lockedSystem t (Ending t (keyOf t) lk)
      (endSessionAndSignOut (keyOf t)) fun _ => Leaving t (keyOf t) lk := by
  have hsignOut : (protocol keyOf w₀).Triple lockedSystem t (Leaving t (keyOf t) lk)
      (signOutAsync (keyOf t)) fun _ => Leaving t (keyOf t) lk :=
    (triple_leaving (keyOf t) lk (removeAsync_performs (keyOf t) (.stringGet _)
      fun sid => .remove _ sid)).conseq (fun _ h => h) fun _ _ hw => hw.1
  refine Protocol.Triple.bind _ (triple_ending (keyOf t) lk
    (retrieveAsync_performs (keyOf t) (.stringGet _))) ?_ fun _ _ hw => hw.1.leaving
  intro ticket
  dsimp only
  split
  · exact hsignOut.conseq (fun _ hw => hw.1.leaving) fun _ _ hw => hw
  · refine Protocol.Triple.bind (fun _ => Leaving t (keyOf t) lk) ?_ (fun _ => hsignOut)
      fun _ _ hw => hw
    exact (triple_endSessionAsync lk _).conseq (fun _ hw => hw.1) fun _ _ hw => hw

theorem triple_acquireOrWaitAsync (rounds : ℕ) :
    (protocol keyOf w₀).Triple lockedSystem t (fun w => Calm t w ∧ NoLocks t w)
      (acquireOrWaitAsync (keyOf t) rounds) fun x w => match x with
        | .ok (some handle) => handle.lockKey = lockKeyName (keyOf t) ∧
          Ending t (keyOf t) (some handle.lockValue) w
        | .ok none => Ending t (keyOf t) none w
        | .error _ => True := by
  have hnone : ∀ w, Calm t w ∧ NoLocks t w → Ending t (keyOf t) none w := fun w hw =>
    ⟨hw.1, hw.2.locksKept _, nofun⟩
  have hstable : (protocol keyOf w₀).Stable t fun w => Calm t w ∧ NoLocks t w :=
    Outline.Valid.stable_out (o := outline keyOf w₀ t) valid
  induction rounds with
  | zero => exact Protocol.Triple.ret hnone
  | succ rounds ih =>
    refine Protocol.Triple.bind _ triple_acquire ?_ fun _ _ _ => trivial
    intro handle
    match handle with
    | .error e =>
      dsimp only
      split
      · exact Protocol.Triple.ret hnone
      · exact Protocol.Triple.raise fun _ _ => trivial
    | .ok (some handle) =>
      refine Protocol.Triple.ret fun w hw => ⟨hw.1, hw.2.1, hw.2.2.2, fun v hv => ?_⟩
      obtain rfl := Option.some.inj hv
      exact hw.2.2.1
    | .ok none =>
      refine Protocol.Triple.call (fun _ w => Calm t w ∧ NoLocks t w) hstable ?_ fun b => ?_
      · intro w r w' hi hw hx
        obtain rfl := hx.1
        exact ⟨keeps_still hi, hw⟩
      dsimp only [Prog.ret_bind]
      split
      · exact Protocol.Triple.ret hnone
      · refine Protocol.Triple.call (fun _ w => Calm t w ∧ NoLocks t w) hstable ?_ fun r => ?_
        · intro w r w' hi hw hx
          obtain ⟨-, rfl⟩ := hx.1
          exact ⟨keeps_still hi, hw⟩
        match r with
        | .error e => exact Protocol.Triple.ret hnone
        | .ok () => exact ih

theorem triple_mapLogout (rounds : ℕ) :
    (protocol keyOf w₀).Triple lockedSystem t (fun w => Calm t w ∧ NoLocks t w)
      (mapLogout (keyOf t) rounds) fun _ _ => True := by
  refine Protocol.Triple.bind _ (triple_acquireOrWaitAsync rounds) ?_ fun _ _ _ => trivial
  intro handle
  match handle with
  | none =>
    exact (triple_endSessionAndSignOut none).conseq (fun _ hw => hw) fun _ _ _ => trivial
  | some ⟨lockKey, v⟩ =>
    refine Protocol.Triple.of_pure (fun _ hw => hw.1) fun hkey => ?_
    obtain rfl : lockKey = lockKeyName (keyOf t) := hkey
    refine Protocol.Triple.tryFinally (fun _ => Leaving t (keyOf t) (some v)) ?_ fun x => ?_
    · exact (triple_endSessionAndSignOut (some v)).conseq (fun _ hw => hw.2) fun _ _ hw => hw
    · refine (triple_disposeAsync v).conseq (fun _ hw => ⟨hw.1, hw.2 v rfl⟩) fun y _ _ => ?_
      cases y <;> trivial

theorem triple_call {call : Call} (hcall : OnSession (keyOf t) call) :
    (protocol keyOf w₀).Triple lockedSystem t (fun w => Calm t w ∧ NoLocks t w) call.code
      fun _ _ => True := by
  cases hcall with
  | gets h => exact triple_get h
  | logout rounds =>
    exact (triple_mapLogout rounds).bind _ (fun _ => Protocol.Triple.ret fun _ _ => trivial)
      fun _ _ _ => trivial

theorem inv_rested {w : World} (hw : Rested w) : Inv keyOf w w := by
  have hinside : ∀ t key v, ¬ Inside w t key v := fun t key v h => by
    have hmem := h.1
    simp [hw.history] at hmem
  have hknown : ∀ key r, Known keyOf w w key r → r ≠ "" ∧
      ∃ ticket, HoldsTicket w key ticket ∧ ticket.tokens.refreshToken = some r := by
    intro key r hk
    obtain ⟨hne, h | ⟨t, rt, payload, -, -, h | h⟩⟩ := hk
    · exact ⟨hne, h⟩
    · cases (hw.exchange t).symm.trans h
    · simp [hw.history] at h
  refine
    { held := fun t key v h => absurd h (hinside t key v)
      drawn := fun t key v h => by simp [hw.history] at h
      drawn_once := fun t u v h => by simp [hw.lockValues] at h
      refreshing := fun t rt h => by simp [hw.awaiting] at h
      ending := fun t rt h => by simp [hw.awaiting] at h
      known := fun key ticket r hholds hr hne => ⟨hne, .inl ⟨ticket, hholds, hr⟩⟩
      issued := fun key r hk => ?_
      one := fun key key' r hk hk' => ?_
      sent := fun t rt h => by simp [hw.history] at h
      received := fun t rt response h => by simp [hw.history] at h
      posted := fun t rt h => by simp [Posted, hw.exchange] at h
      answered := fun t rt payload h => by simp [hw.exchange] at h
      spent := fun rt key ticket h => by
        obtain ⟨t, payload, hrec, -⟩ := h
        simp [hw.history] at hrec }
  · obtain ⟨hne, ticket, hholds, hr⟩ := hknown key r hk
    exact hw.issued key ticket r hholds hr hne
  · obtain ⟨hne, ticket, hholds, hr⟩ := hknown key r hk
    obtain ⟨-, ticket', hholds', hr'⟩ := hknown key' r hk'
    exact hw.one key key' ticket ticket' r hholds hholds' hr hr' hne

/-- The empty history of a thread at the start. -/
theorem calm_rested {w : World} (hw : Rested w) : Calm t w ∧ NoLocks t w := by
  refine ⟨⟨hw.awaiting t, hw.exchange t, fun before key ticket x h => ?_⟩, fun e h => ?_⟩
  · simp [hw.history] at h
  · simp [World.events, hw.history] at h

end Protocol

theorem noResend_refl (w : World) : NoResend w w := ⟨[], rfl, by simp⟩

theorem noResend_trans {a b d : World} (hab : NoResend a b) (hbd : NoResend b d) :
    NoResend a d := by
  obtain ⟨first, hfirst, hf⟩ := hab
  obtain ⟨second, hsecond, hs⟩ := hbd
  refine ⟨second ++ first, by rw [hsecond, hfirst, List.append_assoc], fun rt hspent t hmem => ?_⟩
  rcases List.mem_append.mp hmem with hmem | hmem
  · refine hs rt (spent_mono hspent fun x hx => ?_) t hmem
    rw [hfirst]
    exact List.mem_append_right _ hx
  · exact hf rt hspent t hmem

theorem noResend_run {a b : World} (h : Relation.ReflTransGen NoResend a b) : NoResend a b := by
  induction h with
  | refl => exact noResend_refl a
  | tail _ hstep ih => exact noResend_trans ih hstep

end SingleRefresh

/-- A post lasts while its thread waits for the response. Those of one session do not
overlap, nor does one overlap the end-session call of a logout that obtained the lock;
and no refresh token is sent again once it was spent. -/
theorem refreshes_exclusive {w : World} {calls : ℕ → Call} {keyOf : ℕ → String} {c c' : State}
    (hw : Rested w) (hcalls : ∀ t, OnSession (keyOf t) (calls t))
    (h : lockedSystem.Reach (initial calls w) c) (h' : lockedSystem.Reach c c') :
    (∀ t u rt rt', keyOf t = keyOf u → c.shared.awaiting t = some (.refresh rt) →
      c.shared.awaiting u = some (.refresh rt') → t = u) ∧
    (∀ t u rt rt' v, keyOf t = keyOf u → c.shared.awaiting t = some (.refresh rt) →
      (u, Event.locked (lockKeyName (keyOf u)) v) ∈ c.shared.history →
      c.shared.awaiting u ≠ some (.endSession rt')) ∧
    NoResend c.shared c'.shared := by
  have hsound : Protocol.Ok (SingleRefresh.protocol keyOf w) lockedSystem
      (fun _ (_ : Except Exn CallResult) _ => True) (initial calls w) :=
    Protocol.sound (A := fun t s => SingleRefresh.Calm t s ∧ SingleRefresh.NoLocks t s)
      (SingleRefresh.inv_rested hw) (fun _ => SingleRefresh.calm_rested hw)
      fun t => SingleRefresh.triple_call (hcalls t)
  have henv : ∀ e s s', SingleRefresh.Inv keyOf w s → lockedSystem.env e s s' →
      (SingleRefresh.protocol keyOf w).KeepsAll s s' :=
    fun _ _ _ => SingleRefresh.keepsAll_event
  obtain ⟨hok, -⟩ := hsound.reach henv h
  obtain ⟨-, hguar⟩ := hok.reach henv h'
  have hi : SingleRefresh.Inv keyOf w c.shared := hok.1
  refine ⟨fun t u rt rt' hkey ht hu => ?_, fun t u rt rt' v hkey ht hlocked hu => ?_,
    SingleRefresh.noResend_run hguar⟩
  · obtain ⟨v, hin⟩ := hi.refreshing t rt ht
    obtain ⟨v', hin'⟩ := hi.refreshing u rt' hu
    rw [hkey] at hin
    exact hi.exclusive hin hin'
  · obtain ⟨v', hin⟩ := hi.refreshing t rt ht
    have hin' := hi.ending u rt' hu v hlocked
    rw [hkey] at hin
    obtain rfl := hi.exclusive hin hin'
    cases ht.symm.trans hu

theorem held_staleWorld {key : String} {ticket : AuthenticationTicket} {d : Deadline}
    (h : staleWorld.redis.find? (ticketKeyName key) = some ⟨.str (protect key ticket), d⟩) :
    key = "a" ∧ ticket = staleTicket := by
  obtain ⟨hentry, -⟩ := Option.filter_eq_some_iff.mp h
  simp only [staleWorld, ticketKeyName_inj] at hentry
  split at hentry
  · rename_i hkey
    subst hkey
    have hstr : protect "a" staleTicket = protect "a" ticket :=
      Data.str.inj (Entry.mk.inj (Option.some.inj hentry)).1
    exact ⟨rfl, (RedisValue.ticket.inj hstr).2.symm⟩
  · cases hentry

theorem rested_staleWorld : Rested staleWorld where
  history := rfl
  awaiting _ := rfl
  exchange _ := rfl
  lockValues := rfl
  issued key ticket r hholds hr _ := by
    obtain ⟨d, hd⟩ := Db.get?_eq_some.mp hholds
    obtain ⟨rfl, rfl⟩ := held_staleWorld hd
    obtain rfl := Option.some.inj hr
    exact List.mem_cons_self
  one key key' ticket ticket' r hholds hholds' _ _ _ := by
    obtain ⟨d, hd⟩ := Db.get?_eq_some.mp hholds
    obtain ⟨d', hd'⟩ := Db.get?_eq_some.mp hholds'
    exact (held_staleWorld hd).1.trans (held_staleWorld hd').1.symm

/-- Thread 1 logs out of the session, every other thread asks for its access token. -/
def contendedCalls (t : ℕ) : Call := if t = 1 then .logout "a" 1 else .get "a" 1

theorem onSession_contendedCalls (t : ℕ) : OnSession "a" (contendedCalls t) := by
  unfold contendedCalls
  split
  · exact .logout 1
  · exact .gets (.get 1)

/-- Answers without failures are steps under the locks. -/
theorem locked_answer {t : ℕ} {o : Op} {w w' : World} {r : o.Res}
    (h : World.answer t o w = some (r, w')) : lockedSystem.exec t o w r w' :=
  ⟨exec_answer h, trivial⟩

/-- Thread 0 has posted the refresh token under the lock. -/
def refreshPosted : State := Config.advance World.answer (initial contendedCalls staleWorld) 0 10

/-- Its new tokens are written back and the lock is free again. -/
def refreshWritten : State :=
  Config.advance World.answer ⟨refreshPosted.threads,
    refreshPosted.shared.keycloakAnswers 0 (.refresh "r0") holderAnswer⟩ 0 6

/-- The logout has the lock and is inside its end-session call. -/
def logoutPosted : State := Config.advance World.answer refreshWritten 1 5

theorem refreshes_exclusive_then_logout : ∃ c c' : State,
    lockedSystem.Reach (initial contendedCalls staleWorld) c ∧ lockedSystem.Reach c c' ∧
      Spent c.shared "r0" ∧ NoResend c.shared c'.shared ∧
      c'.shared.awaiting 1 = some (.endSession "r1") ∧
      ∀ t rt, c'.shared.awaiting t ≠ some (.refresh rt) := by
  have hposted := (System.Reach.refl (S := lockedSystem)
    (initial contendedCalls staleWorld)).advance (fun _ _ _ _ _ => locked_answer) 0 10
  have hsent : refreshPosted.shared.exchange 0 = .sent (.refresh "r0") := by decide +kernel
  have hanswered := hposted.env (.keycloakAnswers 0 holderAnswer) _
    ⟨⟨.refresh "r0", hsent, rfl⟩, fun rt payload _ hok => by
      obtain rfl : _ = payload := Option.some.inj (Option.some.inj (HttpResponse.ok.inj hok))
      exact ⟨"r1", rfl, by decide, by decide +kernel⟩⟩
  have hwritten : lockedSystem.Reach (initial contendedCalls staleWorld) refreshWritten :=
    hanswered.advance (fun _ _ _ _ _ => locked_answer) 0 6
  have hlogout : lockedSystem.Reach refreshWritten logoutPosted :=
    (System.Reach.refl refreshWritten).advance (fun _ _ _ _ _ => locked_answer) 1 5
  have hspent : Spent refreshWritten.shared "r0" := by
    refine ⟨0, ⟨some "a1", some "r1", none, 60⟩, ?_, refreshPosted.shared.redis, "a",
      applyRefreshedTokens 0 staleTicket "a1" "r1" none 60, 1000000000000, ?_⟩
    · exact List.Mem.tail _ (List.Mem.tail _ (List.Mem.head _))
    · exact List.Mem.tail _ (List.Mem.head _)
  have hending : logoutPosted.shared.awaiting 1 = some (.endSession "r1") := by decide +kernel
  have hlocked : (1, Event.locked (lockKeyName "a") "1") ∈ logoutPosted.shared.history :=
    List.Mem.tail _ (List.Mem.tail _ (List.Mem.head _))
  refine ⟨refreshWritten, logoutPosted, hwritten, hlogout, hspent, ?_, hending, fun t rt ht => ?_⟩
  · exact (refreshes_exclusive rested_staleWorld onSession_contendedCalls hwritten hlogout).2.2
  · exact (refreshes_exclusive rested_staleWorld onSession_contendedCalls (hwritten.trans hlogout)
      (System.Reach.refl logoutPosted)).2.1 t 1 rt "r1" "1" rfl ht hlocked hending

end Decisya.Bff
