import Decisya.Bff.TokenRefresh

/-!
# What single steps leave alone

The store as the session code sees it (tickets, sid sets, which tickets were ever
stored), the operations that do not touch it, and what a thread can rely on of its
own: its random values, its requests and its events in the history.
-/

namespace Decisya.Bff

set_option autoImplicit false

open Concurrency Redis

/-- The server ran a `StoreAsync` transaction of this ticket under this key. -/
def Stored (w : World) (k : String) (ticket : AuthenticationTicket) : Prop :=
  ∃ t before expiry ok, (t, Event.executed before (storeTransaction k ticket expiry) ok) ∈ w.history

def StoredWith (w : World) (k s : String) : Prop := ∃ ticket, Stored w k ticket ∧ ticket.sid = some s

def World.ticket? (w : World) (k : String) : Option (Entry RedisValue) :=
  w.redis.find? (ticketKeyName k)

def World.sidSet? (w : World) (s : String) : Option (Entry RedisValue) :=
  w.redis.find? (sessionIdSetKeyName s)

/-- No BFF call has run yet and Redis is empty. -/
def emptyWorld (clock now : ℤ) (keycloak : Keycloak) : World where
  clock := clock
  redis := ⟨now, fun _ => none⟩
  keycloak := keycloak
  sessionKeys := []
  lockValues := []
  exchange := fun _ => .idle
  awaiting := fun _ => none
  history := []

theorem storeTransaction_inj {k k' : String} {ticket ticket' : AuthenticationTicket} {x x' : ℤ}
    (h : storeTransaction k ticket x = storeTransaction k' ticket' x') :
    k = k' ∧ ticket = ticket' := by
  simp only [storeTransaction, Redis.Transaction.mk.injEq, List.cons.injEq, Command.set.injEq,
    ticketKeyName_inj, protect, RedisValue.ticket.injEq] at h
  exact ⟨h.2.1.1, h.2.1.2.1.2⟩

theorem updateTransaction_ne_store {k k' : String} {ticket ticket' : AuthenticationTicket}
    {x x' : ℤ} : updateTransaction k ticket x ≠ storeTransaction k' ticket' x' := by
  simp [updateTransaction, storeTransaction]

theorem removeTransaction_ne_store {k k' : String} {sid : Option String}
    {ticket : AuthenticationTicket} {x : ℤ} :
    removeTransaction k sid ≠ storeTransaction k' ticket x := by
  simp [removeTransaction, storeTransaction]

theorem removeAllTransaction_ne_store {s k : String} {members : List String}
    {ticket : AuthenticationTicket} {x : ℤ} :
    removeAllTransaction s members ≠ storeTransaction k ticket x := by
  cases members <;> simp [removeAllTransaction, storeTransaction]

theorem stored_execute {w : World} {t : ℕ} {txn : Transaction} {k : String}
    {ticket : AuthenticationTicket} :
    Stored (w.execute t txn) k ticket ↔
      Stored w k ticket ∨ ∃ x, txn = storeTransaction k ticket x := by
  simp only [Stored, World.execute, World.log, List.mem_cons, Prod.mk.injEq,
    Event.executed.injEq]
  constructor
  · rintro ⟨u, before, x, ok, ⟨-, -, h, -⟩ | h⟩
    · exact .inr ⟨x, h.symm⟩
    · exact .inl ⟨u, before, x, ok, h⟩
  · rintro (⟨u, before, x, ok, h⟩ | ⟨x, rfl⟩)
    · exact ⟨u, before, x, ok, .inr h⟩
    · exact ⟨t, w.redis, x, _, .inl ⟨rfl, rfl, rfl, rfl⟩⟩

theorem stored_log {w : World} {t : ℕ} {e : Event} (he : ∀ b txn ok, e ≠ .executed b txn ok)
    (k : String) (ticket : AuthenticationTicket) : Stored (w.log t e) k ticket ↔ Stored w k ticket := by
  simp only [Stored, World.log, List.mem_cons, Prod.mk.injEq]
  constructor
  · rintro ⟨u, b, x, ok, ⟨-, h⟩ | h⟩
    · exact absurd h.symm (he _ _ _)
    · exact ⟨u, b, x, ok, h⟩
  · rintro ⟨u, b, x, ok, h⟩
    exact ⟨u, b, x, ok, .inr h⟩

/-- Neither the store nor the drawn session keys changed. -/
structure SameStore (w w' : World) : Prop where
  stored : ∀ k ticket, Stored w' k ticket ↔ Stored w k ticket
  sessionKeys : w'.sessionKeys = w.sessionKeys
  ticket : ∀ k, w'.ticket? k = w.ticket? k
  sidSet : ∀ s, w'.sidSet? s = w.sidSet? s

theorem SameStore.refl (w : World) : SameStore w w :=
  ⟨fun _ _ => Iff.rfl, rfl, fun _ => rfl, fun _ => rfl⟩

/-- Changes of the rest of the world, the history apart. -/
theorem sameStore_of_eq {w w' : World} (hist : ∀ k ticket, Stored w' k ticket ↔ Stored w k ticket)
    (hkeys : w'.sessionKeys = w.sessionKeys) (hredis : w'.redis = w.redis) : SameStore w w' :=
  ⟨hist, hkeys, fun k => by unfold World.ticket?; rw [hredis],
    fun s => by unfold World.sidSet?; rw [hredis]⟩

/-- A lock key is neither a ticket key nor a sid set key. -/
theorem sameStore_of_lockKey {w w' : World} {key : String}
    (hist : ∀ k ticket, Stored w' k ticket ↔ Stored w k ticket)
    (hkeys : w'.sessionKeys = w.sessionKeys)
    (hredis : ∀ k, k ≠ lockKeyName key → w'.redis.find? k = w.redis.find? k) :
    SameStore w w' :=
  ⟨hist, hkeys, fun k => hredis _ (lockKeyName_ne_ticketKeyName key k).symm,
    fun s => hredis _ (lockKeyName_ne_sessionIdSetKeyName key s).symm⟩

/-- The operations that neither draw a session key nor run a transaction; the locks
are under lock keys. -/
def Quiet : Op → Prop
  | .generateSessionKey | .execute _ => False
  | .lockTake key _ _ | .lockRelease key _ => ∃ sessionKey, key = lockKeyName sessionKey
  | _ => True

theorem sameStore_of_quiet {t : ℕ} {o : Op} {w w' : World} {r : o.Res} (ho : Quiet o)
    (hx : World.exec t o w r w') : SameStore w w' := by
  cases o with
  | generateSessionKey => exact ho.elim
  | execute txn => exact ho.elim
  | getCurrentInstant => obtain ⟨-, rfl⟩ := hx; exact .refl w'
  | newGuid => obtain ⟨-, rfl⟩ := hx; exact sameStore_of_eq (fun _ _ => Iff.rfl) rfl rfl
  | stringGet key =>
    rcases hx with ⟨-, rfl⟩ | ⟨e, -, rfl⟩
    · exact sameStore_of_eq (stored_log (by simp)) rfl rfl
    · exact .refl w'
  | setMembers key => obtain ⟨-, rfl⟩ := hx; exact .refl w'
  | lockTake key value ttl =>
    obtain ⟨sessionKey, rfl⟩ := ho
    have htake : ∀ k, k ≠ lockKeyName sessionKey →
        (w.lockTake (lockKeyName sessionKey) value ttl).redis.find? k = w.redis.find? k :=
      fun k hk => Db.find?_setNx_ne w.redis _ _ hk
    rcases hx with ⟨-, -, rfl⟩ | ⟨-, -, rfl⟩ | ⟨e, -, rfl | rfl⟩
    · exact sameStore_of_lockKey (stored_log (by simp)) rfl htake
    · exact .refl w'
    · exact .refl w'
    · exact sameStore_of_lockKey (fun _ _ => Iff.rfl) rfl htake
  | lockRelease key value =>
    obtain ⟨sessionKey, rfl⟩ := ho
    have hrelease : ∀ k, k ≠ lockKeyName sessionKey →
        (w.lockRelease (lockKeyName sessionKey) value).redis.find? k = w.redis.find? k :=
      fun k hk => Db.find?_deleteIfEquals_ne w.redis _ hk
    rcases hx with ⟨-, rfl⟩ | ⟨e, -, rfl | rfl⟩
    · exact sameStore_of_lockKey (stored_log (by simp)) rfl hrelease
    · exact sameStore_of_eq (stored_log (by simp)) rfl rfl
    · exact sameStore_of_lockKey (stored_log (by simp)) rfl hrelease
  | deadlineReached => obtain rfl := hx; exact .refl w'
  | delay => obtain ⟨-, rfl⟩ := hx; exact .refl w'
  | getConfiguration => obtain rfl := hx; exact .refl w'
  | send request => obtain rfl := hx; exact sameStore_of_eq (stored_log (by simp)) rfl rfl
  | response =>
    rcases hx with ⟨req, resp, -, -, rfl⟩ | ⟨e, -, rfl⟩
    · exact sameStore_of_eq (stored_log (by simp)) rfl rfl
    · exact sameStore_of_eq (fun _ _ => Iff.rfl) rfl rfl
  | readBody => obtain ⟨-, rfl⟩ := hx; exact .refl w'

/-- The ticket a client that knows the key reads. -/
def HoldsTicket (w : World) (key : String) (ticket : AuthenticationTicket) : Prop :=
  w.redis.get? (ticketKeyName key) = some (protect key ticket)

instance (w : World) (key : String) (ticket : AuthenticationTicket) :
    Decidable (HoldsTicket w key ticket) := inferInstanceAs (Decidable (_ = _))

theorem SameStore.holdsTicket {w w' : World} (h : SameStore w w') {key : String}
    {ticket : AuthenticationTicket} (ht : HoldsTicket w key ticket) : HoldsTicket w' key ticket := by
  obtain ⟨d, hd⟩ := Db.get?_eq_some.mp ht
  exact Db.get?_eq_some.mpr ⟨d, (h.ticket key).trans hd⟩

theorem HoldsTicket.live {w : World} {key : String} {ticket : AuthenticationTicket}
    (h : HoldsTicket w key ticket) : (w.ticket? key).isSome := by
  obtain ⟨d, hd⟩ := Db.get?_eq_some.mp h
  exact Option.isSome_iff_exists.mpr ⟨_, hd⟩

theorem HoldsTicket.unique {w : World} {key : String} {ticket ticket' : AuthenticationTicket}
    (h : HoldsTicket w key ticket) (h' : HoldsTicket w key ticket') : ticket = ticket' := by
  have heq : protect key ticket = protect key ticket' := Option.some.inj (h.symm.trans h')
  exact (RedisValue.ticket.inj heq).2

/-- A write-back succeeds exactly when the key exists, and then the ticket is there. -/
theorem holdsTicket_update {w : World} {t : ℕ} {key : String} {ticket : AuthenticationTicket}
    {n : ℤ} (hn : 0 < n) (hlive : (w.ticket? key).isSome) :
    (w.redis.execute (updateTransaction key ticket n)).1 = true ∧
      HoldsTicket (w.execute t (updateTransaction key ticket n)) key ticket := by
  have hok : (w.redis.execute (updateTransaction key ticket n)).1 = true := by
    unfold World.ticket? at hlive
    rw [execute_update, if_pos hlive]
  refine ⟨hok, Db.get?_eq_some.mpr ⟨some (w.redis.now + n), ?_⟩⟩
  refine (find?_update_ticket w.redis key key ticket n).trans ?_
  rw [if_pos ⟨rfl, hlive⟩]
  have hwritten : Db.live w.redis.now (written w.redis key ticket n) = true := Db.live_within _ hn
  exact Option.filter_eq_some_iff.mpr ⟨rfl, hwritten⟩

theorem clock_exec {t : ℕ} {o : Op} {w w' : World} {r : o.Res} (hx : World.exec t o w r w') :
    w'.clock = w.clock := by
  cases o with
  | generateSessionKey | newGuid | getCurrentInstant | setMembers | delay | readBody =>
    obtain ⟨-, rfl⟩ := hx
    rfl
  | execute txn => rcases hx with ⟨-, rfl⟩ | ⟨e, -, rfl | rfl⟩ <;> rfl
  | stringGet key => rcases hx with ⟨-, rfl⟩ | ⟨e, -, rfl⟩ <;> rfl
  | lockTake key value ttl =>
    rcases hx with ⟨-, -, rfl⟩ | ⟨-, -, rfl⟩ | ⟨e, -, rfl | rfl⟩ <;> rfl
  | lockRelease key value => rcases hx with ⟨-, rfl⟩ | ⟨e, -, rfl | rfl⟩ <;> rfl
  | response => rcases hx with ⟨req, resp, -, -, rfl⟩ | ⟨e, -, rfl⟩ <;> rfl
  | deadlineReached | getConfiguration | send => obtain rfl := hx; rfl

/-- A transaction either had no effect or ran on the server, whatever the client saw. -/
theorem exec_execute {t : ℕ} {txn : Transaction} {w w' : World} {r : Except Exn Bool}
    (hx : World.exec t (.execute txn) w r w') : w' = w ∨ w' = w.execute t txn := by
  rcases hx with ⟨-, h⟩ | ⟨e, -, h⟩
  · exact .inr h
  · exact h

/-- Which event an operation may leave in the history. -/
inductive Op.Logs : Op → Event → Prop where
  | fetched (key : String) (value : Option RedisValue) : Logs (.stringGet key) (.fetched key value)
  | executed (before : Db RedisValue) (txn : Transaction) (ok : Bool) :
      Logs (.execute txn) (.executed before txn ok)
  | locked (key value : String) (ttl : ℤ) : Logs (.lockTake key value ttl) (.locked key value)
  | released (key value : String) : Logs (.lockRelease key value) (.released key value)
  | sent (request : HttpRequest) : Logs (.send request) (.sent request)
  | received (request : HttpRequest) (response : HttpResponse) :
      Logs .response (.received request response)

/-- An operation adds at most one event to the history, its own. -/
theorem history_exec {t : ℕ} {o : Op} {w w' : World} {r : o.Res} (hx : World.exec t o w r w') :
    w'.history = w.history ∨ ∃ e, o.Logs e ∧ w'.history = (t, e) :: w.history := by
  cases o with
  | generateSessionKey => obtain ⟨-, rfl⟩ := hx; exact .inl rfl
  | execute txn =>
    rcases exec_execute hx with rfl | rfl
    · exact .inl rfl
    · exact .inr ⟨_, .executed _ _ _, rfl⟩
  | getCurrentInstant => obtain ⟨-, rfl⟩ := hx; exact .inl rfl
  | newGuid => obtain ⟨-, rfl⟩ := hx; exact .inl rfl
  | stringGet key =>
    rcases hx with ⟨-, rfl⟩ | ⟨e, -, rfl⟩
    · exact .inr ⟨_, .fetched _ _, rfl⟩
    · exact .inl rfl
  | setMembers key => obtain ⟨-, rfl⟩ := hx; exact .inl rfl
  | lockTake key value ttl =>
    rcases hx with ⟨-, -, rfl⟩ | ⟨-, -, rfl⟩ | ⟨e, -, rfl | rfl⟩
    · exact .inr ⟨_, .locked _ _ _, rfl⟩
    · exact .inl rfl
    · exact .inl rfl
    · exact .inl rfl
  | lockRelease key value =>
    rcases hx with ⟨-, rfl⟩ | ⟨e, -, rfl | rfl⟩ <;> exact .inr ⟨_, .released _ _, rfl⟩
  | deadlineReached => obtain rfl := hx; exact .inl rfl
  | delay => obtain ⟨-, rfl⟩ := hx; exact .inl rfl
  | getConfiguration => obtain rfl := hx; exact .inl rfl
  | send request => obtain rfl := hx; exact .inr ⟨_, .sent _, rfl⟩
  | response =>
    rcases hx with ⟨req, resp, -, -, rfl⟩ | ⟨e, -, rfl⟩
    · exact .inr ⟨_, .received _ _, rfl⟩
    · exact .inl rfl
  | readBody => obtain ⟨-, rfl⟩ := hx; exact .inl rfl

theorem history_mono {t : ℕ} {o : Op} {w w' : World} {r : o.Res} (hx : World.exec t o w r w')
    {x : ℕ × Event} (h : x ∈ w.history) : x ∈ w'.history := by
  rcases history_exec hx with he | ⟨e, -, he⟩
  · exact he ▸ h
  · exact he ▸ List.mem_cons_of_mem _ h

theorem history_event {e : Ev} {w w' : World} (hx : e.apply w w') : w'.history = w.history := by
  cases e with
  | clockTick d => obtain rfl := hx; rfl
  | redisTick d => obtain rfl := hx; rfl
  | keycloakAnswers u response => obtain ⟨request, -, rfl⟩ := hx; rfl

/-- Where only events outside `φ` were added, membership of those inside is as before. -/
theorem mem_of_newer {w w' : World} {φ : Event → Prop} {u : ℕ} {e : Event}
    (h : ∃ newer, w'.history = newer ++ w.history ∧ ∀ x ∈ newer, ¬ φ x.2) (he : φ e) :
    (u, e) ∈ w'.history ↔ (u, e) ∈ w.history := by
  obtain ⟨newer, hnew, hnot⟩ := h
  rw [hnew, List.mem_append]
  constructor
  · intro hmem
    rcases hmem with hmem | hmem
    · exact absurd he (hnot _ hmem)
    · exact hmem
  · exact .inr

/-- Of the events only Redis time changes the store. -/
theorem sameStore_of_event {e : Ev} {w w' : World} (hx : e.apply w w') :
    SameStore w w' ∨ ∃ d, w' = w.redisTick d := by
  cases e with
  | clockTick d => obtain rfl := hx; exact .inl (sameStore_of_eq (fun _ _ => Iff.rfl) rfl rfl)
  | redisTick d => exact .inr ⟨d, hx⟩
  | keycloakAnswers u response =>
    obtain ⟨request, -, rfl⟩ := hx
    exact .inl (sameStore_of_eq (fun _ _ => Iff.rfl) rfl rfl)

/-- The events of one thread, the newest first. -/
def World.events (w : World) (t : ℕ) : List Event :=
  (w.history.filter fun x => x.1 = t).map Prod.snd

@[simp] theorem mem_events {w : World} {t : ℕ} {e : Event} :
    e ∈ w.events t ↔ (t, e) ∈ w.history := by
  simp [World.events]

theorem events_of_history {w w' : World} (h : w'.history = w.history) (t : ℕ) :
    w'.events t = w.events t := by simp [World.events, h]

theorem events_of_history_ne {w w' : World} {t u : ℕ} {e : Event} (hne : u ≠ t)
    (h : w'.history = (u, e) :: w.history) : w'.events t = w.events t := by
  simp [World.events, h, hne]

theorem events_of_history_cons {w w' : World} {t : ℕ} {e : Event}
    (h : w'.history = (t, e) :: w.history) : w'.events t = e :: w.events t := by
  simp [World.events, h]

/-- A thread's own operation adds at most one event to its list. -/
theorem events_exec {t : ℕ} {o : Op} {w w' : World} {r : o.Res} (hx : World.exec t o w r w') :
    w'.events t = w.events t ∨ ∃ e, o.Logs e ∧ w'.events t = e :: w.events t := by
  rcases history_exec hx with h | ⟨e, ho, h⟩
  · exact .inl (events_of_history h t)
  · exact .inr ⟨e, ho, events_of_history_cons h⟩

/-- What is the thread's own did not change, but for an answer that may have come in. -/
structure SameThread (t : ℕ) (w w' : World) : Prop where
  events : w'.events t = w.events t
  awaiting : w'.awaiting t = w.awaiting t
  exchange : w'.exchange t = w.exchange t ∨
    ∃ request response, w.exchange t = .sent request ∧
      w'.exchange t = .answered request response ∧
      w'.keycloak = w.keycloak.answer t request response
  lockValues : ∀ v, (t, v) ∈ w.lockValues → (t, v) ∈ w'.lockValues

theorem SameThread.mem {t : ℕ} {w w' : World} (h : SameThread t w w') {e : Event} :
    (t, e) ∈ w'.history ↔ (t, e) ∈ w.history := by
  rw [← mem_events, ← mem_events, h.events]

/-- The post of `t` is on its way, or its answer is. -/
def Posted (t : ℕ) (request : HttpRequest) (w : World) : Prop :=
  w.exchange t = .sent request ∨ ∃ response, w.exchange t = .answered request response

theorem SameThread.posted {t : ℕ} {w w' : World} (h : SameThread t w w') {request : HttpRequest}
    (hp : Posted t request w) : Posted t request w' := by
  rcases h.exchange with he | ⟨request', response, hsent, hans, -⟩
  · unfold Posted
    rw [he]
    exact hp
  · rcases hp with hp | ⟨response', hp⟩
    · obtain rfl := Exchange.sent.inj (hp.symm.trans hsent)
      exact .inr ⟨response, hans⟩
    · cases hp.symm.trans hsent

theorem SameThread.idle {t : ℕ} {w w' : World} (h : SameThread t w w')
    (hidle : w.exchange t = .idle) : w'.exchange t = .idle := by
  rcases h.exchange with he | ⟨request, response, hsent, -, -⟩
  · exact he.trans hidle
  · cases hidle.symm.trans hsent

/-- The world after `t` has sent a post. -/
def afterSend (w : World) (t : ℕ) (request : HttpRequest) : World :=
  { w.log t (.sent request) with
    exchange := Function.update w.exchange t (.sent request)
    awaiting := Function.update w.awaiting t (some request) }

/-- The world after `t` has been given a response. -/
def afterReply (w : World) (t : ℕ) (request : HttpRequest) (response : HttpResponse) : World :=
  { w.log t (.received request response) with
    exchange := Function.update w.exchange t .idle
    awaiting := Function.update w.awaiting t none }

/-- No operation of another thread touches what is the thread's own. -/
theorem own_exec {t u : ℕ} {o : Op} {w w' : World} {r : o.Res} (hne : u ≠ t)
    (hx : World.exec u o w r w') : w'.awaiting t = w.awaiting t ∧ w'.exchange t = w.exchange t ∧
      ∀ v, (t, v) ∈ w.lockValues → (t, v) ∈ w'.lockValues := by
  have hu : t ≠ u := hne.symm
  cases o with
  | newGuid =>
    obtain ⟨-, rfl⟩ := hx
    exact ⟨rfl, rfl, fun v hv => List.mem_cons_of_mem _ hv⟩
  | send request => obtain rfl := hx; simp [hu, World.log]
  | response =>
    rcases hx with ⟨req, resp, -, -, rfl⟩ | ⟨e, -, rfl⟩ <;> simp [hu, World.log]
  | execute txn => rcases exec_execute hx with rfl | rfl <;> exact ⟨rfl, rfl, fun _ h => h⟩
  | generateSessionKey => obtain ⟨-, rfl⟩ := hx; exact ⟨rfl, rfl, fun _ h => h⟩
  | stringGet key =>
    rcases hx with ⟨-, rfl⟩ | ⟨e, -, rfl⟩ <;> exact ⟨rfl, rfl, fun _ h => h⟩
  | lockTake key value ttl =>
    rcases hx with ⟨-, -, rfl⟩ | ⟨-, -, rfl⟩ | ⟨e, -, rfl | rfl⟩ <;>
      exact ⟨rfl, rfl, fun _ h => h⟩
  | lockRelease key value =>
    rcases hx with ⟨-, rfl⟩ | ⟨e, -, rfl | rfl⟩ <;> exact ⟨rfl, rfl, fun _ h => h⟩
  | getCurrentInstant => obtain ⟨-, rfl⟩ := hx; exact ⟨rfl, rfl, fun _ h => h⟩
  | setMembers key => obtain ⟨-, rfl⟩ := hx; exact ⟨rfl, rfl, fun _ h => h⟩
  | delay => obtain ⟨-, rfl⟩ := hx; exact ⟨rfl, rfl, fun _ h => h⟩
  | readBody => obtain ⟨-, rfl⟩ := hx; exact ⟨rfl, rfl, fun _ h => h⟩
  | deadlineReached => obtain rfl := hx; exact ⟨rfl, rfl, fun _ h => h⟩
  | getConfiguration => obtain rfl := hx; exact ⟨rfl, rfl, fun _ h => h⟩

theorem sameThread_exec {t u : ℕ} {o : Op} {w w' : World} {r : o.Res} (hne : u ≠ t)
    (hx : World.exec u o w r w') : SameThread t w w' := by
  have hevents : w'.events t = w.events t := by
    rcases history_exec hx with h | ⟨e, -, h⟩
    · exact events_of_history h t
    · exact events_of_history_ne hne h
  obtain ⟨hawait, hexch, hvalues⟩ := own_exec hne hx
  exact ⟨hevents, hawait, .inl hexch, hvalues⟩

theorem sameThread_event {t : ℕ} {e : Ev} {w w' : World} (hx : e.apply w w') :
    SameThread t w w' := by
  have hevents : w'.events t = w.events t := events_of_history (history_event hx) t
  cases e with
  | clockTick d => obtain rfl := hx; exact ⟨hevents, rfl, .inl rfl, fun _ h => h⟩
  | redisTick d => obtain rfl := hx; exact ⟨hevents, rfl, .inl rfl, fun _ h => h⟩
  | keycloakAnswers u response =>
    obtain ⟨request, hsent, rfl⟩ := hx
    refine ⟨hevents, rfl, ?_, fun _ h => h⟩
    by_cases hu : t = u
    · subst hu
      exact .inr ⟨request, response, hsent, by simp [World.keycloakAnswers], rfl⟩
    · exact .inl (by simp [World.keycloakAnswers, hu])

/-- What thread `t` gets when nothing fails: its random values are named after it, no
deadline passes, and a response is there only once Keycloak has answered. -/
def World.answer (t : ℕ) : (o : Op) → World → Option (o.Res × World)
  | .getCurrentInstant, w => some (w.clock, w)
  | .generateSessionKey, w =>
    let r := toString t
    if ∀ x ∈ w.sessionKeys, x.2 ≠ r then
      some (r, { w with sessionKeys := (t, r) :: w.sessionKeys })
    else none
  | .newGuid, w =>
    let r := toString t
    if ∀ x ∈ w.lockValues, x.2 ≠ r then some (r, { w with lockValues := (t, r) :: w.lockValues })
    else none
  | .stringGet key, w => some (.ok (w.redis.get? key), w.log t (.fetched key (w.redis.get? key)))
  | .setMembers key, w => some (.ok (w.redis.members key), w)
  | .execute txn, w => some (.ok (w.redis.execute txn).1, w.execute t txn)
  | .lockTake key value ttl, w =>
    if w.redis.find? key = none then
      some (.ok true, (w.lockTake key value ttl).log t (.locked key value))
    else some (.ok false, w)
  | .lockRelease key value, w =>
    some (.ok (w.redis.deleteIfEquals key (.lock value)).1,
      (w.lockRelease key value).log t (.released key value))
  | .deadlineReached, w => some (false, w)
  | .delay, w => some (.ok (), w)
  | .getConfiguration, w => some (.ok (), w)
  | .readBody, w => some (.ok (), w)
  | .send request, w =>
    some ((), { w.log t (.sent request) with
      exchange := Function.update w.exchange t (.sent request)
      awaiting := Function.update w.awaiting t (some request) })
  | .response, w =>
    match w.exchange t with
    | .answered request response =>
      some (.ok response, { w.log t (.received request response) with
        exchange := Function.update w.exchange t .idle
        awaiting := Function.update w.awaiting t none })
    | _ => none

/-- Such answers are allowed, and no read among them fails. -/
theorem exec_answer {t : ℕ} {o : Op} {w w' : World} {r : o.Res}
    (h : World.answer t o w = some (r, w')) : World.exec t o w r w' := by
  cases o with
  | generateSessionKey | newGuid =>
    simp only [World.answer, Option.ite_none_right_eq_some, Option.some.injEq,
      Prod.mk.injEq] at h
    obtain ⟨hfresh, rfl, rfl⟩ := h
    exact ⟨fun u hu => hfresh _ hu rfl, rfl⟩
  | lockTake key value ttl =>
    simp only [World.answer] at h
    split at h
    · rename_i hnone
      obtain ⟨rfl, rfl⟩ := Prod.mk.inj (Option.some.inj h)
      exact .inl ⟨rfl, hnone, rfl⟩
    · rename_i hsome
      obtain ⟨rfl, rfl⟩ := Prod.mk.inj (Option.some.inj h)
      exact .inr (.inl ⟨rfl, hsome, rfl⟩)
  | response =>
    simp only [World.answer] at h
    split at h
    · rename_i request response hans
      obtain ⟨rfl, rfl⟩ := Prod.mk.inj (Option.some.inj h)
      exact .inl ⟨request, _, hans, rfl, rfl⟩
    · cases h
  | stringGet | execute | lockRelease | delay | readBody | setMembers =>
    obtain ⟨rfl, rfl⟩ := Prod.mk.inj (Option.some.inj h)
    first | exact .inl ⟨rfl, rfl⟩ | exact ⟨.inl rfl, rfl⟩
  | getCurrentInstant =>
    obtain ⟨rfl, rfl⟩ := Prod.mk.inj (Option.some.inj h)
    exact ⟨rfl, rfl⟩
  | deadlineReached | getConfiguration | send =>
    exact (Prod.mk.inj (Option.some.inj h)).2.symm

theorem find?_redisTick {w : World} {d : ℕ} {k : String} {e : Entry RedisValue}
    (h : (w.redisTick d).redis.find? k = some e) : w.redis.find? k = some e :=
  Db.find?_mono_now (Int.le_add_of_nonneg_right (Int.natCast_nonneg d)) h

end Decisya.Bff
