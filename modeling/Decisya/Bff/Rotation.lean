import Decisya.Bff.HealthySession

/-!
# What a cancelled refresh loses

Keycloak rotates the refresh token when it processes a post, and only the response
tells the new one. A thread that is cancelled before it has read the response leaves
the old token in the ticket, and nobody else can put the new one there. In every other
case the write-back follows: from the read of the response on, no step is cancellable.
-/

namespace Decisya.Bff

set_option autoImplicit false

open Concurrency Redis

/-- A success carries a complete token set with a refresh token of its own. -/
def Keycloak.Rotates (kc : Keycloak) (body : Option (Option TokenResponsePayload)) : Prop :=
  ∃ payload r, body = some (some payload) ∧ payload.refreshToken = some r ∧ r ≠ "" ∧
    r ∉ kc.issued ∧ isNullOrEmpty payload.accessToken = false ∧ 0 < payload.expiresIn

/-- Redis accepts writes, a post fails at the client only because it is cancelled, and the
ticket does not run out. -/
def rotatingSystem (key : String) : System ℕ Op Op.Res Ev World :=
  system.restrict
    (fun _ o _ r _ => match o, r with
      | .execute _, r => ∃ b, r = .ok b
      | .response, r => ∀ e, r = .error e → e = .operationCanceled
      | _, _ => True)
    fun e w w' => match e with
      | .keycloakAnswers t response => ∀ rt body, w.exchange t = .sent (.refresh rt) →
        response = .ok body → w.keycloak.Rotates body
      | .redisTick _ => ∀ ticket, HoldsTicket w key ticket → HoldsTicket w' key ticket
      | .clockTick _ => True

/-- Keycloak has rotated the token of `t`, and the response is on its way. -/
def RotationAnswered (t : ℕ) (w : World) : Prop :=
  ∃ rt body, w.exchange t = .answered (.refresh rt) (.ok body)

/-- `t` has the response and is about to read its body. -/
def RotationReceived (t : ℕ) (w : World) : Prop :=
  ∃ rt body past, w.events t = .received (.refresh rt) (.ok body) :: past

/-- No thread is cancelled from Keycloak's processing of its post to the end of the read
of the response, and Keycloak rotates no token for a thread that has given up. -/
def uncancelledSystem (key : String) : System ℕ Op Op.Res Ev World :=
  (rotatingSystem key).restrict
    (fun t o w r _ => match o, r with
      | .response, r => ∀ e, r = .error e → ¬ RotationAnswered t w
      | .readBody, r => ∀ e, r = .error e → ¬ RotationReceived t w
      | _, _ => True)
    fun e w _ => match e with
      | .keycloakAnswers t response => ∀ rt body, w.exchange t = .sent (.refresh rt) →
        response = .ok body → w.awaiting t = some (.refresh rt)
      | _ => True

/-- A run on one session: `GetAsync`, a logout, or the back channel's. -/
inductive ServesSession (key : String) : Call → Prop where
  | gets {call : Call} (h : Outline.Gets key call) : ServesSession key call
  | logout (rounds : ℕ) : ServesSession key (.logout key rounds)
  | backchannel (sid : String) : ServesSession key (.removeAll sid)

/-- The session before the calls run. -/
structure Refreshing (key : String) (w : World) : Prop where
  holds : ∃ ticket, HoldsTicket w key ticket ∧ ticket.expiresUtc.isSome ∧
    ∀ r, ticket.tokens.refreshToken = some r → r ∈ w.keycloak.issued
  history : w.history = []
  awaiting : ∀ t, w.awaiting t = none
  exchange : ∀ t, w.exchange t = .idle
  processed : w.keycloak.processed = []

/-- The transactions that delete the ticket of `key`. -/
inductive Deletes (key : String) : Transaction → Prop where
  | remove (sid : Option String) : Deletes key (removeTransaction key sid)
  | removeAll (sid : String) (members : List String) (h : key ∈ members) :
      Deletes key (removeAllTransaction sid members)

def Deleted (key : String) (w : World) : Prop :=
  ∃ u before txn ok, (u, Event.executed before txn ok) ∈ w.history ∧ Deletes key txn

/-- `t` has written the refresh token of this payload into the ticket. -/
def WroteToken (key : String) (w : World) (t : ℕ) (payload : TokenResponsePayload) : Prop :=
  ∃ before ticket n, (t, Event.executed before (updateTransaction key ticket n) true) ∈ w.history ∧
    ticket.tokens.refreshToken = payload.refreshToken

/-- Where Keycloak processed the post of a thread that has ended, the ticket got the new
refresh token or was deleted, and no live ticket holds the one that was sent. -/
def RotationKept (key : String) (c : State) : Prop :=
  ∀ t x rt payload, (c.threads t).outcome? = some x →
    (t, .refresh rt, .ok (some (some payload))) ∈ c.shared.keycloak.processed →
    (WroteToken key c.shared t payload ∨ Deleted key c.shared) ∧
      ∀ ticket, HoldsTicket c.shared key ticket → ticket.tokens.refreshToken ≠ some rt

namespace Rotation

/-- Keycloak gave `t` this payload for the token `rt`. -/
def Got (w : World) (t : ℕ) (rt : String) (payload : TokenResponsePayload) : Prop :=
  w.exchange t = .answered (.refresh rt) (.ok (some (some payload))) ∨
    (t, Event.received (.refresh rt) (.ok (some (some payload)))) ∈ w.history

def Asked (w : World) (t : ℕ) (rt : String) : Prop :=
  Posted t (.refresh rt) w ∨ ∃ response, (t, Event.received (.refresh rt) response) ∈ w.history

section Protocol
variable (key : String)

def Updated (w : World) (t : ℕ) : Prop :=
  ∃ before ticket n ok, (t, Event.executed before (updateTransaction key ticket n) ok) ∈ w.history

def Fetched (w : World) (r : String) : Prop :=
  ∃ u ticket, (u, Event.fetched (ticketKeyName key) (some (protect key ticket))) ∈ w.history ∧
    ticket.tokens.refreshToken = some r

def InTicket (w : World) (r : String) : Prop :=
  ∃ ticket, HoldsTicket w key ticket ∧ ticket.tokens.refreshToken = some r

/-- What the ticket holds, or held when it was read. -/
def Seen (w : World) (r : String) : Prop := Fetched key w r ∨ InTicket key w r

structure Inv (w : World) : Prop where
  expires : ∀ ticket, HoldsTicket w key ticket → ticket.expiresUtc.isSome
  present : (∃ ticket, HoldsTicket w key ticket) ∨ Deleted key w
  issued : ∀ r, Seen key w r → r ≠ "" → r ∈ w.keycloak.issued
  got : ∀ t rt payload, Got w t rt payload → isNullOrEmpty payload.accessToken = false ∧
    0 < payload.expiresIn ∧
    ∃ r, payload.refreshToken = some r ∧ r ≠ "" ∧ r ∈ w.keycloak.issued
  one : ∀ t u rt rt' payload payload', Got w t rt payload → Got w u rt' payload' →
    payload.refreshToken = payload'.refreshToken → t = u
  owed : ∀ t rt payload r, Got w t rt payload → ¬ Updated key w t →
    payload.refreshToken = some r → ¬ Seen key w r
  asked : ∀ t rt, Asked w t rt → Fetched key w rt
  unwritten : ∀ t rt, w.exchange t = .sent (.refresh rt) → ¬ Updated key w t
  processed : ∀ t rt payload,
    (t, .refresh rt, .ok (some (some payload))) ∈ w.keycloak.processed → Got w t rt payload
  rotated : ∀ t rt payload ticket, Got w t rt payload → Updated key w t →
    HoldsTicket w key ticket → ticket.tokens.refreshToken ≠ some rt

/-- What `t` relies on: a thread that has given up is given no token. -/
structure Relied (t : ℕ) (w w' : World) : Prop extends SameThread t w w' where
  grows : ∀ x ∈ w.history, x ∈ w'.history
  unanswered : ∀ rt payload,
    w'.exchange t = .answered (.refresh rt) (.ok (some (some payload))) →
    w.exchange t = .answered (.refresh rt) (.ok (some (some payload))) ∨ w.awaiting t ≠ none

def protocol : Protocol ℕ World where
  inv := Inv key
  guar := fun _ _ => True
  rely := Relied

variable {key} {t : ℕ}

/-! ## Steps without a rotation and without a write-back -/

structure Same (key : String) (w w' : World) : Prop where
  got : ∀ u rt payload, Got w' u rt payload ↔ Got w u rt payload
  updated : ∀ u, Updated key w' u ↔ Updated key w u
  asked : ∀ u rt, Asked w' u rt → Asked w u rt ∨ Fetched key w' rt
  sent : ∀ u rt, w'.exchange u = .sent (.refresh rt) →
    w.exchange u = .sent (.refresh rt) ∨ ¬ Updated key w u
  processed : ∀ u rt payload,
    (u, .refresh rt, .ok (some (some payload))) ∈ w'.keycloak.processed →
      (u, .refresh rt, .ok (some (some payload))) ∈ w.keycloak.processed
  issued : w'.keycloak.issued = w.keycloak.issued
  grows : ∀ x ∈ w.history, x ∈ w'.history
  tickets : ∀ ticket, HoldsTicket w' key ticket → HoldsTicket w key ticket
  fetched : ∀ r, Fetched key w' r → Seen key w r
  present : ∀ ticket, HoldsTicket w key ticket →
    HoldsTicket w' key ticket ∨ Deleted key w'

theorem fetched_mono {w w' : World} (h : ∀ x ∈ w.history, x ∈ w'.history) {r : String}
    (hf : Fetched key w r) : Fetched key w' r := by
  obtain ⟨u, ticket, hmem, hr⟩ := hf
  exact ⟨u, ticket, h _ hmem, hr⟩

theorem deleted_mono {w w' : World} (h : ∀ x ∈ w.history, x ∈ w'.history)
    (hd : Deleted key w) : Deleted key w' := by
  obtain ⟨u, before, txn, ok, hmem, hdel⟩ := hd
  exact ⟨u, before, txn, ok, h _ hmem, hdel⟩

namespace Same
variable {w w' : World} (h : Same key w w')
include h

theorem seen {r : String} (hs : Seen key w' r) : Seen key w r := by
  rcases hs with hf | ⟨ticket, hholds, hr⟩
  · exact h.fetched r hf
  · exact .inr ⟨ticket, h.tickets ticket hholds, hr⟩

theorem inv (hi : Inv key w) : Inv key w' where
  expires ticket hholds := hi.expires ticket (h.tickets ticket hholds)
  present := by
    rcases hi.present with ⟨ticket, hholds⟩ | hdel
    · exact (h.present ticket hholds).imp (fun h' => ⟨ticket, h'⟩) id
    · exact .inr (deleted_mono h.grows hdel)
  issued r hs hne := h.issued ▸ hi.issued r (h.seen hs) hne
  got u rt payload hg := h.issued ▸ hi.got u rt payload ((h.got u rt payload).mp hg)
  one u u' rt rt' payload payload' hg hg' :=
    hi.one u u' rt rt' payload payload' ((h.got u rt payload).mp hg)
      ((h.got u' rt' payload').mp hg')
  owed u rt payload r hg hup hr hs :=
    hi.owed u rt payload r ((h.got u rt payload).mp hg) (fun h' => hup ((h.updated u).mpr h')) hr
      (h.seen hs)
  asked u rt ha := by
    rcases h.asked u rt ha with ha | hf
    · exact fetched_mono h.grows (hi.asked u rt ha)
    · exact hf
  unwritten u rt hsent hup := by
    have hup' := (h.updated u).mp hup
    rcases h.sent u rt hsent with hsent | hnone
    · exact hi.unwritten u rt hsent hup'
    · exact hnone hup'
  processed u rt payload hp :=
    (h.got u rt payload).mpr (hi.processed u rt payload (h.processed u rt payload hp))
  rotated u rt payload ticket hg hup hholds :=
    hi.rotated u rt payload ticket ((h.got u rt payload).mp hg) ((h.updated u).mp hup)
      (h.tickets ticket hholds)

theorem keeps (hi : Inv key w) {o : Op} {r : o.Res} (hx : World.exec t o w r w') :
    (protocol key).Keeps t w w' :=
  ⟨h.inv hi, trivial, fun _ hne => ⟨sameThread_exec hne.symm hx, h.grows,
    fun _ _ hans => .inl ((own_exec hne.symm hx).2.1 ▸ hans)⟩⟩

end Same

/-- The events that the invariant speaks of, reads apart. -/
inductive Tracked (key : String) : Event → Prop where
  | received (rt : String) (response : HttpResponse) :
      Tracked key (.received (.refresh rt) response)
  | wrote (before : Db RedisValue) (ticket : AuthenticationTicket) (n : ℤ) (ok : Bool) :
      Tracked key (.executed before (updateTransaction key ticket n) ok)

/-- What is `Same` where the posts and Keycloak are left alone. -/
theorem same_of_rest {w w' : World}
    (hist : ∃ newer, w'.history = newer ++ w.history ∧ ∀ x ∈ newer, ¬ Tracked key x.2)
    (hexch : w'.exchange = w.exchange) (hkc : w'.keycloak = w.keycloak)
    (htickets : ∀ ticket, HoldsTicket w' key ticket → HoldsTicket w key ticket)
    (hfetched : ∀ r, Fetched key w' r → Seen key w r)
    (hpresent : ∀ ticket, HoldsTicket w key ticket →
      HoldsTicket w' key ticket ∨ Deleted key w') : Same key w w' where
  got u rt payload := by
    unfold Got
    rw [hexch, mem_of_newer hist (.received rt _)]
  updated u := by
    have hiff : ∀ before ticket n ok,
        (u, Event.executed before (updateTransaction key ticket n) ok) ∈ w'.history ↔
          (u, Event.executed before (updateTransaction key ticket n) ok) ∈ w.history :=
      fun before ticket n ok => mem_of_newer hist (.wrote before ticket n ok)
    simp only [Updated, hiff]
  asked u rt ha := by
    refine .inl (ha.imp (fun hp => ?_) fun ⟨response, hmem⟩ => ⟨response, ?_⟩)
    · unfold Posted at hp ⊢
      exact hexch ▸ hp
    · exact (mem_of_newer hist (.received rt response)).mp hmem
  sent u rt h := .inl (hexch ▸ h)
  processed u rt payload hp := hkc ▸ hp
  issued := congrArg Keycloak.issued hkc
  grows x hx := by
    obtain ⟨newer, hnew, -⟩ := hist
    rw [hnew]
    exact List.mem_append_right _ hx
  tickets := htickets
  fetched := hfetched
  present := hpresent

/-- The operations that neither post nor write a ticket back. -/
inductive Plain (key : String) : Op → Prop where
  | getCurrentInstant : Plain key .getCurrentInstant
  | newGuid : Plain key .newGuid
  | stringGet (k : String) : Plain key (.stringGet k)
  | setMembers (k : String) : Plain key (.setMembers k)
  | remove (sid : Option String) : Plain key (.execute (removeTransaction key sid))
  | removeAll (sid : String) (members : List String) :
      Plain key (.execute (removeAllTransaction sid members))
  | lockTake (v : String) (ttl : ℤ) : Plain key (.lockTake (lockKeyName key) v ttl)
  | lockRelease (v : String) : Plain key (.lockRelease (lockKeyName key) v)
  | deadlineReached : Plain key .deadlineReached
  | delay : Plain key .delay
  | getConfiguration : Plain key .getConfiguration
  | readBody : Plain key .readBody

theorem deletes_ne_update {key' : String} {txn : Transaction} (h : Deletes key' txn)
    (ticket : AuthenticationTicket) (n : ℤ) : txn ≠ updateTransaction key ticket n := by
  cases h with
  | remove sid => simp [removeTransaction, updateTransaction]
  | removeAll sid members => simp [removeAllTransaction, updateTransaction]

theorem plain_history {o : Op} (ho : Plain key o) {w w' : World} {r : o.Res}
    (hx : World.exec t o w r w') : ∃ newer, w'.history = newer ++ w.history ∧
      ∀ x ∈ newer, ¬ Tracked key x.2 := by
  rcases history_exec hx with h | ⟨e, hlogs, h⟩
  · exact ⟨[], h, by simp⟩
  · refine ⟨[(t, e)], h, fun x hx => ?_⟩
    obtain rfl := List.mem_singleton.mp hx
    intro htracked
    cases htracked with
    | received rt response => cases hlogs; cases ho
    | wrote before ticket n ok =>
      generalize htxn : updateTransaction key ticket n = txn at hlogs
      cases hlogs
      cases ho with
      | remove sid => exact deletes_ne_update (.remove sid) ticket n htxn.symm
      | removeAll sid members =>
        simp [updateTransaction, removeAllTransaction] at htxn

theorem plain_rest {o : Op} (ho : Plain key o) {w w' : World} {r : o.Res}
    (hx : World.exec t o w r w') : w'.exchange = w.exchange ∧ w'.awaiting = w.awaiting ∧
      w'.keycloak = w.keycloak := by
  cases ho with
  | getCurrentInstant | newGuid | setMembers | delay | readBody =>
    obtain ⟨-, rfl⟩ := hx
    exact ⟨rfl, rfl, rfl⟩
  | deadlineReached | getConfiguration => obtain rfl := hx; exact ⟨rfl, rfl, rfl⟩
  | stringGet k => rcases hx with ⟨-, rfl⟩ | ⟨e, -, rfl⟩ <;> exact ⟨rfl, rfl, rfl⟩
  | remove sid => rcases exec_execute hx with rfl | rfl <;> exact ⟨rfl, rfl, rfl⟩
  | removeAll sid members => rcases exec_execute hx with rfl | rfl <;> exact ⟨rfl, rfl, rfl⟩
  | lockTake v ttl =>
    rcases hx with ⟨-, -, rfl⟩ | ⟨-, -, rfl⟩ | ⟨e, -, rfl | rfl⟩ <;> exact ⟨rfl, rfl, rfl⟩
  | lockRelease v =>
    rcases hx with ⟨-, rfl⟩ | ⟨e, -, rfl | rfl⟩ <;> exact ⟨rfl, rfl, rfl⟩

/-- Deleting brings no ticket back, and leaves a trace where it takes one away. -/
theorem tickets_removeAll {w : World} {sid : String} {members : List String}
    (ticket : AuthenticationTicket) :
    (HoldsTicket (w.execute t (removeAllTransaction sid members)) key ticket →
      HoldsTicket w key ticket) ∧
    (HoldsTicket w key ticket → HoldsTicket (w.execute t (removeAllTransaction sid members)) key
      ticket ∨ Deleted key (w.execute t (removeAllTransaction sid members))) := by
  have hfind := find?_removeAll_ticket w.redis sid key members
  by_cases hk : key ∈ members
  · rw [if_pos hk] at hfind
    refine ⟨fun h => ?_, fun _ => .inr ⟨t, _, _, _, List.mem_cons_self, .removeAll sid _ hk⟩⟩
    obtain ⟨d, hd⟩ := Db.get?_eq_some.mp h
    cases hfind.symm.trans hd
  · rw [if_neg hk] at hfind
    refine ⟨fun h => ?_, fun h => .inl ?_⟩
    · obtain ⟨d, hd⟩ := Db.get?_eq_some.mp h
      exact Db.get?_eq_some.mpr ⟨d, hfind ▸ hd⟩
    · obtain ⟨d, hd⟩ := Db.get?_eq_some.mp h
      exact Db.get?_eq_some.mpr ⟨d, hfind.trans hd⟩

theorem tickets_remove {w : World} {sid : Option String} (ticket : AuthenticationTicket) :
    ¬ HoldsTicket (w.execute t (removeTransaction key sid)) key ticket := by
  intro h
  obtain ⟨d, hd⟩ := Db.get?_eq_some.mp h
  have hfind := find?_remove_ticket w.redis key key sid
  rw [if_pos rfl] at hfind
  cases hfind.symm.trans hd

theorem plain_tickets {o : Op} (ho : Plain key o) {w w' : World} {r : o.Res}
    (hx : World.exec t o w r w') (ticket : AuthenticationTicket) :
    (HoldsTicket w' key ticket → HoldsTicket w key ticket) ∧
      (HoldsTicket w key ticket → HoldsTicket w' key ticket ∨ Deleted key w') := by
  have hquiet : Quiet o → (HoldsTicket w' key ticket → HoldsTicket w key ticket) ∧
      (HoldsTicket w key ticket → HoldsTicket w' key ticket ∨ Deleted key w') := by
    intro hq
    have hsame := sameStore_of_quiet hq hx
    refine ⟨fun h => ?_, fun h => .inl (hsame.holdsTicket h)⟩
    obtain ⟨d, hd⟩ := Db.get?_eq_some.mp h
    exact Db.get?_eq_some.mpr ⟨d, (hsame.ticket key).symm.trans hd⟩
  cases ho with
  | remove sid =>
    rcases exec_execute hx with rfl | rfl
    · exact ⟨id, .inl⟩
    · exact ⟨fun h => absurd h (tickets_remove ticket),
        fun _ => .inr ⟨t, _, _, _, List.mem_cons_self, .remove sid⟩⟩
  | removeAll sid members =>
    rcases exec_execute hx with rfl | rfl
    · exact ⟨id, .inl⟩
    · exact tickets_removeAll ticket
  | lockTake v ttl => exact hquiet ⟨key, rfl⟩
  | lockRelease v => exact hquiet ⟨key, rfl⟩
  | _ => exact hquiet trivial

theorem plain_fetched {o : Op} (ho : Plain key o) {w w' : World} {r : o.Res}
    (hx : World.exec t o w r w') {rt : String} (h : Fetched key w' rt) : Seen key w rt := by
  obtain ⟨u, ticket, hmem, hr⟩ := h
  rcases history_exec hx with he | ⟨e, hlogs, he⟩
  · exact .inl ⟨u, ticket, he ▸ hmem, hr⟩
  · rw [he] at hmem
    rcases List.mem_cons.mp hmem with heq | hmem
    · obtain ⟨rfl, rfl⟩ := Prod.mk.inj heq
      -- the read found what the ticket holds now
      cases hlogs
      rcases hx with ⟨-, rfl⟩ | ⟨e, -, rfl⟩
      · have hevent := (Prod.mk.inj (List.cons.inj he).1).2
        exact .inr ⟨ticket, (Event.fetched.inj hevent).2, hr⟩
      · simp at he
    · exact .inl ⟨u, ticket, hmem, hr⟩

theorem same_plain {o : Op} (ho : Plain key o) {w w' : World} {r : o.Res}
    (hx : World.exec t o w r w') : Same key w w' := by
  obtain ⟨hexch, -, hkc⟩ := plain_rest ho hx
  exact same_of_rest (plain_history ho hx) hexch hkc (fun ticket => (plain_tickets ho hx ticket).1)
    (fun _ => plain_fetched ho hx) fun ticket => (plain_tickets ho hx ticket).2

theorem keeps_plain {o : Op} (ho : Plain key o) {w w' : World} {r : o.Res} (hi : Inv key w)
    (hx : World.exec t o w r w') : (protocol key).Keeps t w w' := (same_plain ho hx).keeps hi hx

/-! ## Posts -/

theorem same_send {w : World} {request : HttpRequest} (hidle : ∀ rt, ¬ Posted t (.refresh rt) w)
    (hfetched : ∀ rt, request = .refresh rt → Fetched key w rt)
    (hnone : ¬ Updated key w t) : Same key w (afterSend w t request) where
  got u rt payload := by
    by_cases hu : u = t
    · subst hu
      have hnot : w.exchange u ≠ .answered (.refresh rt) (.ok (some (some payload))) :=
        fun h => hidle rt (.inr ⟨_, h⟩)
      simp [Got, afterSend, World.log, hnot]
    · simp [Got, afterSend, World.log, hu]
  updated u := by simp [Updated, afterSend, World.log]
  asked u rt ha := by
    rcases ha with hp | ⟨response, hmem⟩
    · by_cases hu : u = t
      · subst hu
        have hreq : request = .refresh rt := by
          rcases hp with hp | ⟨response, hp⟩
          · exact Exchange.sent.inj (by simpa [afterSend] using hp)
          · simp [afterSend] at hp
        exact .inr (fetched_mono (fun x hx => List.mem_cons_of_mem _ hx) (hfetched rt hreq))
      · exact .inl (.inl (by simpa [Posted, afterSend, hu] using hp))
    · rcases List.mem_cons.mp hmem with heq | hmem
      · cases (Prod.mk.inj heq).2
      · exact .inl (.inr ⟨response, hmem⟩)
  sent u rt h := by
    by_cases hu : u = t
    · exact .inr (hu ▸ hnone)
    · exact .inl (by simpa [afterSend, hu] using h)
  processed u rt payload hp := hp
  issued := rfl
  grows x hx := List.mem_cons_of_mem _ hx
  tickets ticket h := h
  fetched r h := by
    obtain ⟨u, ticket, hmem, hr⟩ := h
    rcases List.mem_cons.mp hmem with heq | hmem
    · cases (Prod.mk.inj heq).2
    · exact .inl ⟨u, ticket, hmem, hr⟩
  present ticket h := .inl h

theorem same_reply {w : World} {request : HttpRequest} {response : HttpResponse}
    (hans : w.exchange t = .answered request response) :
    Same key w (afterReply w t request response) where
  got u rt payload := by
    by_cases hu : u = t
    · subst hu
      simp only [Got, afterReply, World.log, Function.update_self, hans, reduceCtorEq,
        List.mem_cons, Prod.mk.injEq, true_and, Event.received.injEq, Exchange.answered.injEq,
        false_or]
      constructor
      · intro h
        exact h.imp (fun h => ⟨h.1.symm, h.2.symm⟩) id
      · intro h
        exact h.imp (fun h => ⟨h.1.symm, h.2.symm⟩) id
    · simp [Got, afterReply, World.log, hu]
  updated u := by simp [Updated, afterReply, World.log]
  asked u rt ha := by
    refine .inl ?_
    rcases ha with hp | ⟨response', hmem⟩
    · by_cases hu : u = t
      · subst hu
        simp [Posted, afterReply] at hp
      · exact .inl (by simpa [Posted, afterReply, hu] using hp)
    · rcases List.mem_cons.mp hmem with heq | hmem
      · obtain ⟨rfl, he⟩ := Prod.mk.inj heq
        obtain ⟨rfl, rfl⟩ := Event.received.inj he
        exact .inl (.inr ⟨_, hans⟩)
      · exact .inr ⟨response', hmem⟩
  sent u rt h := by
    by_cases hu : u = t
    · subst hu
      simp [afterReply] at h
    · exact .inl (by simpa [afterReply, hu] using h)
  processed u rt payload hp := hp
  issued := rfl
  grows x hx := List.mem_cons_of_mem _ hx
  tickets ticket h := h
  fetched r h := by
    obtain ⟨u, ticket, hmem, hr⟩ := h
    rcases List.mem_cons.mp hmem with heq | hmem
    · cases (Prod.mk.inj heq).2
    · exact .inl ⟨u, ticket, hmem, hr⟩
  present ticket h := .inl h

theorem same_giveUp (w : World) :
    Same key w { w with awaiting := Function.update w.awaiting t none } :=
  same_of_rest ⟨[], rfl, by simp⟩ rfl rfl (fun _ h => h) (fun _ h => .inl h) fun _ h => .inl h

/-! ## The write-back -/

theorem holds_update {w : World} {ticket tk : AuthenticationTicket} {n : ℤ}
    (h : HoldsTicket (w.execute t (updateTransaction key ticket n)) key tk) : tk = ticket := by
  obtain ⟨d, hd⟩ := Db.get?_eq_some.mp h
  have hfind := (find?_update_ticket w.redis key key ticket n).symm.trans hd
  split at hfind
  · obtain ⟨hw, -⟩ := Option.filter_eq_some_iff.mp hfind
    have hstr : protect key ticket = protect key tk :=
      Data.str.inj (Entry.mk.inj (Option.some.inj hw)).1
    exact (RedisValue.ticket.inj hstr).2.symm
  · rename_i hcond
    simp [hfind] at hcond

/-- Writing back the token that Keycloak gave for the one that was sent. -/
theorem keeps_update {w w' : World} {ticket : AuthenticationTicket} {n : ℤ} {rt r : String}
    {payload : TokenResponsePayload} (hi : Inv key w) (hn : 0 < n)
    (hw' : w' = w.execute t (updateTransaction key ticket n))
    (hexpires : ticket.expiresUtc.isSome) (hgot : Got w t rt payload)
    (hnone : ¬ Updated key w t) (hidle : w.exchange t = .idle)
    (hr : payload.refreshToken = some r)
    (htoken : ticket.tokens.refreshToken = some r) :
    (protocol key).Keeps t w w' ∧ Updated key w' t ∧ (WroteToken key w' t payload ∨ Deleted key w') := by
  have hx : World.exec t (.execute (updateTransaction key ticket n)) w
      (.ok (w.redis.execute (updateTransaction key ticket n)).1) w' := .inl ⟨rfl, hw'⟩
  have hheld : ∀ tk, HoldsTicket w' key tk → tk = ticket := fun tk h => holds_update (hw' ▸ h)
  have hhist : w'.history = (t, .executed w.redis (updateTransaction key ticket n)
      (w.redis.execute (updateTransaction key ticket n)).1) :: w.history := by subst hw'; rfl
  have hgrows : ∀ x ∈ w.history, x ∈ w'.history := fun x hx => by
    rw [hhist]
    exact List.mem_cons_of_mem _ hx
  have hgot' : ∀ u rt' payload', Got w' u rt' payload' ↔ Got w u rt' payload' := by
    subst hw'
    simp [Got, World.execute, World.log]
  have hupdated : ∀ u, Updated key w' u → u = t ∨ Updated key w u := by
    intro u h
    obtain ⟨before, tk, m, ok, hmem⟩ := h
    rw [hhist] at hmem
    rcases List.mem_cons.mp hmem with heq | hmem
    · exact .inl (Prod.mk.inj heq).1
    · exact .inr ⟨before, tk, m, ok, hmem⟩
  have hself : Updated key w' t := ⟨w.redis, ticket, n, _, hhist ▸ List.mem_cons_self⟩
  have hseen : ∀ r', Seen key w' r' → Seen key w r' ∨ r' = r := by
    intro r' h
    rcases h with ⟨u, tk, hmem, hr'⟩ | ⟨tk, hholds, hr'⟩
    · rw [hhist] at hmem
      rcases List.mem_cons.mp hmem with heq | hmem
      · cases (Prod.mk.inj heq).2
      · exact .inl (.inl ⟨u, tk, hmem, hr'⟩)
    · obtain rfl := hheld tk hholds
      exact .inr (Option.some.inj (hr'.symm.trans htoken))
  obtain ⟨r₀, hr₀, hne, hissued⟩ := (hi.got t rt payload hgot).2.2
  obtain rfl : r₀ = r := Option.some.inj (hr₀.symm.trans hr)
  have hkc : w'.keycloak = w.keycloak := by subst hw'; rfl
  have hasked : ∀ u rt', Asked w' u rt' → Asked w u rt' := by
    intro u rt' ha
    rcases ha with hp | ⟨response, hmem⟩
    · exact .inl (by subst hw'; exact hp)
    · rw [hhist] at hmem
      rcases List.mem_cons.mp hmem with heq | hmem
      · cases (Prod.mk.inj heq).2
      · exact .inr ⟨response, hmem⟩
  have hdone : WroteToken key w' t payload ∨ Deleted key w' := by
    rcases hi.present with ⟨tk, hholds⟩ | hdel
    · obtain ⟨hok, -⟩ := holdsTicket_update (t := t) hn hholds.live
      refine .inl ⟨w.redis, ticket, n, ?_, htoken.trans hr.symm⟩
      rw [hhist]
      exact hok ▸ List.mem_cons_self
    · exact .inr (deleted_mono hgrows hdel)
  refine ⟨⟨?_, trivial, fun u hu => ?_⟩, hself, hdone⟩
  · refine
      { expires := fun tk hholds => hheld tk hholds ▸ hexpires
        present := ?_
        issued := fun r' hs hne' => ?_
        got := fun u rt' payload' h => hkc ▸ hi.got u rt' payload' ((hgot' u rt' payload').mp h)
        one := fun u u' rt' rt'' p p' h h' =>
          hi.one u u' rt' rt'' p p' ((hgot' u rt' p).mp h) ((hgot' u' rt'' p').mp h')
        owed := fun u rt' p r' h hup hr' hs => ?_
        asked := fun u rt' ha => fetched_mono hgrows (hi.asked u rt' (hasked u rt' ha))
        unwritten := fun u rt' hsent hup => ?_
        processed := fun u rt' p hp => (hgot' u rt' p).mpr (hi.processed u rt' p (hkc ▸ hp))
        rotated := fun u rt' p tk h hup hholds => ?_ }
    · rcases hi.present with ⟨tk, hholds⟩ | hdel
      · have hholds' := (@holdsTicket_update w t key ticket n hn hholds.live).2
        exact .inl ⟨ticket, hw' ▸ hholds'⟩
      · exact .inr (deleted_mono hgrows hdel)
    · rw [hkc]
      rcases hseen r' hs with hs | rfl
      · exact hi.issued r' hs hne'
      · exact hissued
    · have hg := (hgot' u rt' p).mp h
      have hnot : ¬ Updated key w u := fun h' => by
        obtain ⟨before, tk, m, ok, hmem⟩ := h'
        exact hup ⟨before, tk, m, ok, hgrows _ hmem⟩
      rcases hseen r' hs with hs | rfl
      · exact hi.owed u rt' p r' hg hnot hr' hs
      · -- the same token was given to one thread only
        obtain rfl := hi.one u t rt' rt p payload hg hgot (hr'.trans hr.symm)
        exact hup hself
    · have hsent' : w.exchange u = .sent (.refresh rt') := by subst hw'; exact hsent
      rcases hupdated u hup with rfl | hup
      · cases hidle.symm.trans hsent'
      · exact hi.unwritten u rt' hsent' hup
    · obtain rfl := hheld tk hholds
      have hg := (hgot' u rt' p).mp h
      -- what was sent had been read before, what is written was not
      have hsent : Fetched key w rt' := by
        refine hi.asked u rt' ?_
        rcases hg with hans | hmem
        · exact .inl (.inr ⟨_, hans⟩)
        · exact .inr ⟨_, hmem⟩
      intro heq
      obtain rfl := Option.some.inj (htoken.symm.trans heq)
      exact hi.owed t rt payload _ hgot hnone hr (.inl hsent)
  · exact ⟨sameThread_exec hu.symm hx, hgrows,
      fun _ _ hans => .inl ((own_exec hu.symm hx).2.1 ▸ hans)⟩

/-! ## Events -/

theorem posted_answers {w : World} {u : ℕ} {request : HttpRequest} {response : HttpResponse}
    (hsent : w.exchange u = .sent request) (v : ℕ) (rt : String)
    (h : Posted v (.refresh rt) (w.keycloakAnswers u request response)) :
    Posted v (.refresh rt) w := by
  by_cases hv : v = u
  · subst hv
    rcases h with h | ⟨response', h⟩
    · simp [World.keycloakAnswers] at h
    · obtain ⟨rfl, -⟩ : request = .refresh rt ∧ response = response' := by
        simpa [World.keycloakAnswers] using h
      exact .inl hsent
  · simpa [Posted, World.keycloakAnswers, hv] using h

/-- An answer that rotates nothing. -/
theorem same_answers {w : World} {u : ℕ} {request : HttpRequest} {response : HttpResponse}
    (hsent : w.exchange u = .sent request)
    (hnot : ∀ rt payload, request = .refresh rt → response ≠ .ok (some (some payload))) :
    Same key w (w.keycloakAnswers u request response) where
  got v rt payload := by
    by_cases hv : v = u
    · subst hv
      have hans : ¬ (request = .refresh rt ∧ response = .ok (some (some payload))) :=
        fun h => hnot rt payload h.1 h.2
      simp [Got, World.keycloakAnswers, hsent, hans]
    · simp [Got, World.keycloakAnswers, hv]
  updated v := by simp [Updated, World.keycloakAnswers]
  asked v rt ha := .inl (ha.imp (posted_answers hsent v rt) fun h => h)
  sent v rt h := by
    by_cases hv : v = u
    · subst hv
      simp [World.keycloakAnswers] at h
    · exact .inl (by simpa [World.keycloakAnswers, hv] using h)
  processed v rt payload hp := by
    rcases List.mem_cons.mp hp with heq | hp
    · obtain ⟨-, hreq, hres⟩ : v = u ∧ HttpRequest.refresh rt = request ∧
          HttpResponse.ok (some (some payload)) = response := by simpa using heq
      exact absurd hres.symm (hnot rt payload hreq.symm)
    · exact hp
  issued := by
    cases request with
    | endSession rt => rfl
    | refresh rt =>
      rcases response with (_ | _ | payload) | _
      · rfl
      · rfl
      · exact absurd rfl (hnot rt payload rfl)
      · rfl
  grows x hx := hx
  tickets ticket h := h
  fetched r h := .inl h
  present ticket h := .inl h

/-- An answer that rotates the token: the new one was never seen. -/
theorem inv_rotates {w : World} {u : ℕ} {rt r : String} {payload : TokenResponsePayload}
    (hi : Inv key w) (hsent : w.exchange u = .sent (.refresh rt))
    (hr : payload.refreshToken = some r) (hne : r ≠ "") (hfresh : r ∉ w.keycloak.issued)
    (haccess : isNullOrEmpty payload.accessToken = false) (hlife : 0 < payload.expiresIn) :
    Inv key (w.keycloakAnswers u (.refresh rt) (.ok (some (some payload)))) := by
  have hgot : ∀ v rt' p,
      Got (w.keycloakAnswers u (.refresh rt) (.ok (some (some payload)))) v rt' p →
        Got w v rt' p ∨ (v = u ∧ rt' = rt ∧ p = payload) := by
    intro v rt' p h
    by_cases hv : v = u
    · subst hv
      rcases h with h | h
      · obtain ⟨rfl, rfl⟩ : rt = rt' ∧ payload = p := by simpa [World.keycloakAnswers] using h
        exact .inr ⟨rfl, rfl, rfl⟩
      · exact .inl (.inr h)
    · exact .inl (by simpa [Got, World.keycloakAnswers, hv] using h)
  have hold : ∀ v rt' p, Got w v rt' p →
      Got (w.keycloakAnswers u (.refresh rt) (.ok (some (some payload)))) v rt' p := by
    intro v rt' p h
    by_cases hv : v = u
    · subst hv
      refine .inr (h.elim (fun h => ?_) id)
      cases hsent.symm.trans h
    · simpa [Got, World.keycloakAnswers, hv] using h
  have hissued : (w.keycloakAnswers u (.refresh rt) (.ok (some (some payload)))).keycloak.issued =
      r :: w.keycloak.issued := by simp [World.keycloakAnswers, Keycloak.answer, hr]
  refine
    { expires := hi.expires
      present := hi.present
      issued := fun r' hs hne' => hissued ▸ List.mem_cons_of_mem _ (hi.issued r' hs hne')
      got := fun v rt' p h => ?_
      one := fun v v' rt' rt'' p p' h h' heq => ?_
      owed := fun v rt' p r' h hup hr' hs => ?_
      asked := fun v rt' ha => hi.asked v rt' (ha.imp (posted_answers hsent v rt') id)
      unwritten := fun v rt' h => hi.unwritten v rt' ?_
      processed := fun v rt' p hp => ?_
      rotated := fun v rt' p tk h hup hholds => ?_ }
  · rw [hissued]
    rcases hgot v rt' p h with h | ⟨rfl, rfl, rfl⟩
    · obtain ⟨ha, hl, r', hr', hne', hmem⟩ := hi.got v rt' p h
      exact ⟨ha, hl, r', hr', hne', List.mem_cons_of_mem _ hmem⟩
    · exact ⟨haccess, hlife, r, hr, hne, List.mem_cons_self⟩
  · -- a token issued before is not the one issued now
    have hother : ∀ x rt' p, Got w x rt' p → p.refreshToken ≠ payload.refreshToken := by
      intro x rt' p h heq
      obtain ⟨-, -, r', hr', -, hmem⟩ := hi.got x rt' p h
      obtain rfl := Option.some.inj (hr'.symm.trans (heq.trans hr))
      exact hfresh hmem
    rcases hgot v rt' p h with hg | ⟨rfl, rfl, rfl⟩ <;>
      rcases hgot v' rt'' p' h' with hg' | ⟨rfl, rfl, rfl⟩
    · exact hi.one v v' rt' rt'' p p' hg hg' heq
    · exact absurd heq (hother v rt' p hg)
    · exact absurd heq.symm (hother v' rt'' p' hg')
    · rfl
  · rcases hgot v rt' p h with h | ⟨rfl, rfl, rfl⟩
    · exact hi.owed v rt' p r' h hup hr' hs
    · obtain rfl := Option.some.inj (hr'.symm.trans hr)
      exact hfresh (hi.issued r' hs hne)
  · by_cases hv : v = u
    · subst hv
      simp [World.keycloakAnswers] at h
    · simpa [World.keycloakAnswers, hv] using h
  · rcases List.mem_cons.mp hp with heq | hp
    · obtain ⟨rfl, rfl, rfl⟩ : v = u ∧ rt' = rt ∧ p = payload := by simpa using heq
      exact .inl (by simp [World.keycloakAnswers])
    · exact hold v rt' p (hi.processed v rt' p hp)
  · rcases hgot v rt' p h with h | ⟨rfl, rfl, rfl⟩
    · exact hi.rotated v rt' p tk h hup hholds
    · exact absurd hup (hi.unwritten v rt' hsent)

theorem keepsAll_keycloakAnswers {w : World} {u : ℕ} {request : HttpRequest}
    {response : HttpResponse} (hi : Inv key w) (hsent : w.exchange u = .sent request)
    (hrotates : ∀ rt body, w.exchange u = .sent (.refresh rt) → response = .ok body →
      w.keycloak.Rotates body)
    (hawait : ∀ rt body, w.exchange u = .sent (.refresh rt) → response = .ok body →
      w.awaiting u = some (.refresh rt)) :
    (protocol key).KeepsAll w (w.keycloakAnswers u request response) := by
  have hrelied : ∀ v, Relied v w (w.keycloakAnswers u request response) := by
    intro v
    refine ⟨sameThread_event (e := .keycloakAnswers u response) ⟨request, hsent, rfl⟩,
      fun _ hx => hx, fun rt payload h => ?_⟩
    by_cases hv : v = u
    · subst hv
      obtain ⟨rfl, rfl⟩ : request = .refresh rt ∧ response = .ok (some (some payload)) := by
        simpa [World.keycloakAnswers] using h
      exact .inr (by simp [hawait rt _ hsent rfl])
    · exact .inl (by simpa [World.keycloakAnswers, hv] using h)
  refine ⟨?_, trivial, hrelied⟩
  by_cases hrot : ∃ rt body, request = .refresh rt ∧ response = .ok body
  · obtain ⟨rt, body, rfl, rfl⟩ := hrot
    obtain ⟨payload, r, rfl, hr, hne, hfresh, haccess, hlife⟩ := hrotates rt body hsent rfl
    exact inv_rotates hi hsent hr hne hfresh haccess hlife
  · exact (same_answers hsent fun rt payload hreq hres => hrot ⟨rt, _, hreq, hres⟩).inv hi

theorem keepsAll_event {e : Ev} {w w' : World} (hi : Inv key w)
    (hx : (uncancelledSystem key).env e w w') : (protocol key).KeepsAll w w' := by
  have hsame : Same key w w' → w'.exchange = w.exchange → (∀ x ∈ w.history, x ∈ w'.history) →
      (protocol key).KeepsAll w w' := fun h hexch hgrows =>
    ⟨h.inv hi, trivial, fun u => ⟨sameThread_event hx.1.1, hgrows, fun _ _ ha => .inl (hexch ▸ ha)⟩⟩
  cases e with
  | clockTick d =>
    obtain rfl := hx.1.1
    refine hsame (same_of_rest ⟨[], rfl, by simp⟩ rfl rfl ?_ ?_ ?_) rfl fun _ h => h
    · exact fun _ h => h
    · exact fun _ h => .inl h
    · exact fun _ h => .inl h
  | redisTick d =>
    obtain rfl := hx.1.1
    refine hsame (same_of_rest ⟨[], rfl, by simp⟩ rfl rfl ?_ ?_ ?_) rfl fun _ h => h
    · intro ticket h
      obtain ⟨d', hd⟩ := Db.get?_eq_some.mp h
      exact Db.get?_eq_some.mpr ⟨d', find?_redisTick hd⟩
    · exact fun _ h => .inl h
    · exact fun ticket h => .inl (hx.1.2 ticket h)
  | keycloakAnswers u response =>
    obtain ⟨request, hsent, rfl⟩ := hx.1.1
    exact keepsAll_keycloakAnswers hi hsent hx.1.2 hx.2

/-! ## The outline -/

/-- `t` has asked for no token and written none back. -/
structure Unsent (key : String) (t : ℕ) (w : World) : Prop where
  posted : ∀ rt, ¬ Posted t (.refresh rt) w
  events : ∀ e ∈ w.events t, ¬ Tracked key e

/-- Whatever Keycloak gave to `t` was written back, or the ticket was deleted. -/
structure Safe (key : String) (t : ℕ) (w : World) : Prop where
  awaiting : w.awaiting t = none
  kept : ∀ rt payload, Got w t rt payload →
    Updated key w t ∧ (WroteToken key w t payload ∨ Deleted key w)

/-- `t` has the response to its post and has done nothing since. -/
def Replied (key : String) (t : ℕ) (rt : String) (response : HttpResponse) (w : World) : Prop :=
  w.awaiting t = none ∧ w.exchange t = .idle ∧
    ∃ past, w.events t = .received (.refresh rt) response :: past ∧ ∀ e ∈ past, ¬ Tracked key e

/-- A token set in the response is one that `ParseSuccessAsync` accepts. -/
def Complete (response : HttpResponse) : Prop := ∀ payload,
  response = .ok (some (some payload)) →
    isNullOrEmpty payload.accessToken = false ∧ 0 < payload.expiresIn

def outline (key : String) (t : ℕ) : Outline where
  out w := w.awaiting t = none ∧ Unsent key t w
  held _ w := w.awaiting t = none ∧ Unsent key t w
  read _ tk w := (w.awaiting t = none ∧ Unsent key t w) ∧ tk.expiresUtc.isSome ∧
    ∀ r, tk.tokens.refreshToken = some r → Fetched key w r
  sent _ tk rt w := (tk.expiresUtc.isSome ∧ tk.tokens.refreshToken = some rt) ∧
    Posted t (.refresh rt) w ∧ ∀ e ∈ w.events t, ¬ Tracked key e
  replied _ tk rt resp w := ((tk.expiresUtc.isSome ∧ tk.tokens.refreshToken = some rt) ∧
    Complete resp) ∧ Replied key t rt resp w
  ended _ _ := Safe key t
  post _ := Safe key t

theorem Unsent.not_got {w : World} (h : Unsent key t w) {rt : String}
    {payload : TokenResponsePayload} : ¬ Got w t rt payload := by
  intro hgot
  rcases hgot with hans | hmem
  · exact h.posted rt (.inr ⟨_, hans⟩)
  · exact h.events _ (mem_events.mpr hmem) (.received rt _)

theorem Unsent.safe {w : World} (h : w.awaiting t = none ∧ Unsent key t w) : Safe key t w :=
  ⟨h.1, fun _ _ hgot => absurd hgot h.2.not_got⟩

/-- A reply that rotated nothing owes nothing. -/
theorem Replied.safe {w : World} {rt : String} {response : HttpResponse}
    (h : Replied key t rt response w) (hnot : ∀ payload, response ≠ .ok (some (some payload))) :
    Safe key t w := by
  obtain ⟨hawait, hidle, past, hevents, hpast⟩ := h
  refine ⟨hawait, fun rt' payload hgot => ?_⟩
  rcases hgot with hans | hmem
  · cases hidle.symm.trans hans
  · rw [← mem_events, hevents] at hmem
    rcases List.mem_cons.mp hmem with heq | hmem
    · exact absurd (Event.received.inj heq).2.symm (hnot payload)
    · exact absurd (.received rt' _) (hpast _ hmem)

theorem Replied.got {w : World} {rt : String} {payload : TokenResponsePayload}
    (h : Replied key t rt (.ok (some (some payload))) w) : Got w t rt payload := by
  obtain ⟨-, -, past, hevents, -⟩ := h
  exact .inr (mem_events.mp (hevents ▸ List.mem_cons_self))

theorem Replied.not_updated {w : World} {rt : String} {response : HttpResponse}
    (h : Replied key t rt response w) : ¬ Updated key w t := by
  obtain ⟨-, -, past, hevents, hpast⟩ := h
  intro hup
  obtain ⟨before, ticket, n, ok, hmem⟩ := hup
  rw [← mem_events, hevents] at hmem
  rcases List.mem_cons.mp hmem with heq | hmem
  · cases heq
  · exact hpast _ hmem (.wrote before ticket n ok)

section Stable
variable {w w' : World}

theorem unsent_same (h : SameThread t w w') (hu : Unsent key t w) : Unsent key t w' := by
  refine ⟨fun rt hp => ?_, fun e he => hu.events e (h.events ▸ he)⟩
  rcases h.exchange with heq | ⟨request, response, hsent, hans, -⟩
  · unfold Posted at hp
    exact hu.posted rt (by unfold Posted; exact heq ▸ hp)
  · rcases hp with hp | ⟨response', hp⟩
    · cases hans.symm.trans hp
    · obtain ⟨rfl, -⟩ := Exchange.answered.inj (hans.symm.trans hp)
      exact hu.posted rt (.inl hsent)

theorem stable_out : (protocol key).Stable t fun w => w.awaiting t = none ∧ Unsent key t w :=
  fun _ _ hw hr => ⟨hr.awaiting.trans hw.1, unsent_same hr.toSameThread hw.2⟩

theorem safe_mono (hawait : w'.awaiting t = none)
    (hgot : ∀ rt payload, Got w' t rt payload → Got w t rt payload)
    (hgrows : ∀ x ∈ w.history, x ∈ w'.history) (hs : Safe key t w) : Safe key t w' := by
  refine ⟨hawait, fun rt payload hg => ?_⟩
  obtain ⟨⟨before, ticket, n, ok, hmem⟩, hkept⟩ := hs.kept rt payload (hgot rt payload hg)
  refine ⟨⟨before, ticket, n, ok, hgrows _ hmem⟩, hkept.imp (fun h => ?_) (deleted_mono hgrows)⟩
  obtain ⟨before', ticket', n', hmem', htoken⟩ := h
  exact ⟨before', ticket', n', hgrows _ hmem', htoken⟩

theorem stable_safe : (protocol key).Stable t (Safe key t) := by
  intro w w' hw hr
  refine safe_mono (hr.awaiting.trans hw.awaiting) (fun rt payload hg => ?_) hr.grows hw
  rcases hg with hans | hmem
  · rcases hr.unanswered rt payload hans with h | h
    · exact .inl h
    · exact absurd hw.awaiting h
  · exact .inr (hr.mem.mp hmem)

theorem stable_replied (rt : String) (response : HttpResponse) :
    (protocol key).Stable t (Replied key t rt response) := by
  intro w w' hw hr
  obtain ⟨hawait, hidle, past, hevents, hpast⟩ := hw
  exact ⟨hr.awaiting.trans hawait, hr.idle hidle, past, hr.events.trans hevents, hpast⟩

end Stable

section PlainOps
variable {o : Op} (ho : Plain key o) {w w' : World} {r : o.Res} (hx : World.exec t o w r w')
include ho hx

theorem plain_unsent (hw : w.awaiting t = none ∧ Unsent key t w) :
    w'.awaiting t = none ∧ Unsent key t w' := by
  obtain ⟨newer, hnew, hnot⟩ := plain_history ho hx
  obtain ⟨hexch, hawait, -⟩ := plain_rest ho hx
  refine ⟨(congrFun hawait t).trans hw.1, fun rt hp => hw.2.posted rt ?_, fun e he => ?_⟩
  · unfold Posted at hp ⊢
    exact hexch ▸ hp
  · rw [mem_events, hnew] at he
    rcases List.mem_append.mp he with he | he
    · exact hnot _ he
    · exact hw.2.events e (mem_events.mpr he)

theorem plain_safe (hw : Safe key t w) : Safe key t w' := by
  obtain ⟨-, hawait, -⟩ := plain_rest ho hx
  exact safe_mono ((congrFun hawait t).trans hw.awaiting)
    (fun rt payload => ((same_plain ho hx).got t rt payload).mp) (same_plain ho hx).grows hw

end PlainOps

theorem triple_out {α : Type} {p : Code α} {ψ : α → Prop} (h : p.Performs (Plain key) ψ) :
    (protocol key).Triple (uncancelledSystem key) t (fun w => w.awaiting t = none ∧ Unsent key t w)
      p fun x w => (w.awaiting t = none ∧ Unsent key t w) ∧ ∀ a, x = .ok a → ψ a :=
  Protocol.Triple.of_performs stable_out (h.mono (fun _ ho _ _ _ hi hw hx =>
    ⟨keeps_plain ho hi hx.1.1, plain_unsent ho hx.1.1 hw⟩) fun _ h => h)

theorem triple_safe {α : Type} {p : Code α} {ψ : α → Prop} (h : p.Performs (Plain key) ψ) :
    (protocol key).Triple (uncancelledSystem key) t (Safe key t) p fun _ => Safe key t := by
  have hp : p.Performs (fun o => ∀ w r w', (protocol key).inv w → Safe key t w →
      (uncancelledSystem key).exec t o w r w' → (protocol key).Keeps t w w' ∧ Safe key t w') ψ :=
    h.mono (fun _ ho _ _ _ hi hw hx => ⟨keeps_plain ho hi hx.1.1, plain_safe ho hx.1.1 hw⟩)
      fun _ h => h
  exact (Protocol.Triple.of_performs stable_safe hp).conseq (fun _ h => h) fun _ _ hw => hw.1

/-- What the read under the lock finds can be written back, and has been read. -/
theorem triple_fetch :
    (protocol key).Triple (uncancelledSystem key) t (fun w => w.awaiting t = none ∧ Unsent key t w)
      (retrieveAsync key) fun x w => (w.awaiting t = none ∧ Unsent key t w) ∧
        ∀ tk, x = .ok (some tk) → tk.expiresUtc.isSome ∧
          ∀ r, tk.tokens.refreshToken = some r → Fetched key w r := by
  refine triple_retrieveAsync stable_out ?_
  intro w r w' hi hw hx
  refine ⟨keeps_plain (.stringGet _) hi hx.1.1, plain_unsent (.stringGet _) hx.1.1 hw, ?_⟩
  intro tk hr
  rcases hx.1.1 with ⟨hres, rfl⟩ | ⟨e, hres, -⟩
  · have hholds : HoldsTicket w key tk := Except.ok.inj (hres.symm.trans hr)
    refine ⟨hi.expires tk hholds, fun r' hr' => ⟨t, tk, ?_, hr'⟩⟩
    have hvalue : w.redis.get? (ticketKeyName key) = some (protect key tk) := hholds
    rw [hvalue]
    exact List.mem_cons_self
  · cases hres.symm.trans hr

theorem stable_read (tk : AuthenticationTicket) : (protocol key).Stable t fun w =>
    (w.awaiting t = none ∧ Unsent key t w) ∧ tk.expiresUtc.isSome ∧
      ∀ r, tk.tokens.refreshToken = some r → Fetched key w r := fun w w' hw hr =>
  ⟨stable_out w w' hw.1 hr, hw.2.1, fun r hrt => fetched_mono hr.grows (hw.2.2 r hrt)⟩

theorem Unsent.not_updated {w : World} (h : Unsent key t w) : ¬ Updated key w t := by
  intro hup
  obtain ⟨before, ticket, n, ok, hmem⟩ := hup
  exact h.events _ (mem_events.mpr hmem) (.wrote before ticket n ok)

/-- `t` has been given no other token than that of its reply. -/
theorem Replied.got_unique {w : World} {rt rt' : String} {payload payload' : TokenResponsePayload}
    (h : Replied key t rt (.ok (some (some payload))) w) (hgot : Got w t rt' payload') :
    payload' = payload := by
  obtain ⟨-, hidle, past, hevents, hpast⟩ := h
  rcases hgot with hans | hmem
  · cases hidle.symm.trans hans
  · rw [← mem_events, hevents] at hmem
    rcases List.mem_cons.mp hmem with heq | hmem
    · simpa using (Event.received.inj heq).2
    · exact absurd (.received rt' _) (hpast _ hmem)

theorem triple_disposeAsync (v : String) :
    (protocol key).Triple (uncancelledSystem key) t (Safe key t)
      (LockHandle.disposeAsync ⟨lockKeyName key, v⟩) fun _ => Safe key t :=
  triple_safe (disposeAsync_performs _ (.lockRelease v))

/-- The write-back of a reply. -/
theorem keeps_write {tk : AuthenticationTicket} {rt a r : String} {i : Option String} {x : ℤ}
    {body : Option (Option TokenResponsePayload)} (hparse : parseSuccess rt body = .success a r i x)
    (now : ℤ) {n : ℤ} (hn : 0 < n) {w w' : World} {res : Except Exn Bool} (hi : Inv key w)
    (hexpires : tk.expiresUtc.isSome) (hrt : tk.tokens.refreshToken = some rt)
    (hreplied : Replied key t rt (.ok body) w)
    (hx : (uncancelledSystem key).exec t
      (.execute (updateTransaction key (applyRefreshedTokens now tk a r i x) n)) w res w') :
    (protocol key).Keeps t w w' ∧ Safe key t w' := by
  obtain ⟨payload, rfl, -, -, -, -, -, hr⟩ := parseSuccess_eq_success hparse
  have hgot : Got w t rt payload := hreplied.got
  obtain ⟨-, -, r', hr', hne, -⟩ := hi.got t rt payload hgot
  obtain rfl : r = r' := by simpa [hr', isNullOrEmpty, hne] using hr
  have hw' : w' = w.execute t (updateTransaction key (applyRefreshedTokens now tk a r i x) n) := by
    obtain ⟨b, hb⟩ := hx.1.2
    rcases hx.1.1 with ⟨-, h⟩ | ⟨e, he, -⟩
    · exact h
    · cases hb.symm.trans he
  have htoken : (applyRefreshedTokens now tk a r i x).tokens.refreshToken = some r := by simp [hrt]
  obtain ⟨hkeep, hup, hkept⟩ := keeps_update hi hn hw' (by simpa using hexpires) hgot
    hreplied.not_updated hreplied.2.1 hr' htoken
  refine ⟨hkeep, ?_, fun rt' payload' hg => ?_⟩
  · subst hw'
    exact hreplied.1
  · have hg' : Got w t rt' payload' := by
      subst hw'
      simpa [Got, World.execute, World.log] using hg
    obtain rfl := hreplied.got_unique hg'
    exact ⟨hup, hkept⟩

theorem valid : (outline key t).Valid (protocol key) (uncancelledSystem key) t key where
  within :=
    { exec := fun _ _ _ _ _ hx => hx.1.1
      env := fun _ _ _ hx => hx.1.1 }
  still w hi := keeps_plain (o := .getCurrentInstant) (r := w.clock) .getCurrentInstant hi ⟨rfl, rfl⟩
  stable_out := stable_out
  stable_read _ tk := stable_read tk
  stable_sent _ tk rt w w' hw hr :=
    ⟨hw.1, hr.posted hw.2.1, fun e he => hw.2.2 e (hr.events ▸ he)⟩
  stable_replied _ tk rt resp :=
    (Protocol.stable_const ((tk.expiresUtc.isSome ∧ tk.tokens.refreshToken = some rt) ∧
      Complete resp)).and (stable_replied rt resp)
  stop w x hw _ := Unsent.safe hw
  authenticate := .of_triple (triple_out (authenticateAsync_performs key (.stringGet _)
    .getCurrentInstant .remove)) (fun _ hw => Unsent.safe hw.1) (fun _ _ hw => hw.1)
    fun _ _ hw => Unsent.safe hw.1
  wait := .of_triple (triple_out (retrieveAsync_performs key (.stringGet _)))
    (fun _ hw => Unsent.safe hw.1) (fun _ _ hw => hw.1) fun _ _ hw => Unsent.safe hw.1
  acquire := (triple_out (tryAcquireAsync_performs key .newGuid fun v => .lockTake v lockTtl)).conseq
    (fun _ h => h) fun x w hw => by
      rcases x with e | (e | (_ | handle))
      · exact hw.1
      · exact hw.1
      · exact hw.1
      · exact ⟨hw.2 _ rfl handle rfl, hw.1⟩
  fetch _ := .of_triple triple_fetch (fun _ hw => Unsent.safe hw.1)
    (fun tk _ hw => ⟨hw.1, hw.2 tk rfl⟩) fun _ _ hw => Unsent.safe hw.1
  read_stop _ tk w x hw _ := Unsent.safe hw.1
  read_none _ tk w hw _ := Unsent.safe hw.1
  send _ tk w r w' hnull hi hw hx := by
    obtain ⟨⟨hawait, hunsent⟩, hexpires, hfetched⟩ := hw
    generalize hrt : tk.tokens.refreshToken.getD "" = rt at hx
    have hne : rt ≠ "" := by
      rintro rfl
      simp [isNullOrEmpty, hrt] at hnull
    have hsome : tk.tokens.refreshToken = some rt := by
      cases htoken : tk.tokens.refreshToken with
      | none =>
        simp only [htoken, Option.getD_none] at hrt
        exact absurd hrt.symm hne
      | some s => simpa [htoken] using hrt
    have hw' : w' = afterSend w t (.refresh rt) := hx.1.1
    have hsame : Same key w w' := by
      rw [hw']
      refine same_send hunsent.posted (fun rt' h => ?_) hunsent.not_updated
      obtain rfl := HttpRequest.refresh.inj h
      exact hfetched rt hsome
    refine ⟨hsame.keeps (o := .send (.refresh rt)) (r := r) hi hx.1.1, ⟨hexpires, hsome⟩, ?_, fun e he => ?_⟩
    · exact .inl (by simp [hw', afterSend])
    · have hevents : w'.events t = .sent (.refresh rt) :: w.events t :=
        events_of_history_cons (by rw [hw']; rfl)
      rw [hevents] at he
      rcases List.mem_cons.mp he with rfl | he
      · intro htracked
        cases htracked
      · exact hunsent.events e he
  reply _ tk rt w r w' hi hw hx := by
    obtain ⟨htk, hposted, hpast⟩ := hw
    rcases hx.1.1 with ⟨request, response, hans, rfl, hw'⟩ | ⟨e, rfl, hw'⟩
    · have hreq : request = .refresh rt := by
        rcases hposted with h | ⟨response', h⟩
        · cases h.symm.trans hans
        · exact (Exchange.answered.inj (h.symm.trans hans)).1.symm
      subst hreq
      have hsame : Same key w w' := hw' ▸ same_reply hans
      refine ⟨hsame.keeps (o := .response) hi hx.1.1, ⟨htk, fun payload hp => ?_⟩, ?_, ?_, _, ?_,
        hpast⟩
      · subst hp
        obtain ⟨haccess, hlife, -⟩ := hi.got t rt payload (.inl hans)
        exact ⟨haccess, hlife⟩
      · simp [hw']
      · simp [hw']
      · exact events_of_history_cons (by rw [hw']; rfl)
    · have hsame : Same key w w' := hw' ▸ same_giveUp w
      refine ⟨hsame.keeps (o := .response) hi hx.1.1, fun x _ => ⟨?_, ?_⟩⟩
      · simp [hw']
      · intro rt' payload hgot
        have hgot' : Got w t rt' payload := by
          subst hw'
          exact hgot
        rcases hgot' with hans | hmem
        · exact absurd ⟨rt', _, hans⟩ (hx.2 e rfl)
        · exact absurd (.received rt' _) (hpast _ (mem_events.mpr hmem))
  body _ tk rt resp w r w' hi hw hx := by
    refine ⟨keeps_plain (o := .readBody) .readBody hi hx.1.1, ?_⟩
    obtain ⟨-, rfl⟩ := hx.1.1
    cases r with
    | ok _ => exact hw
    | error e =>
      refine hw.2.safe fun payload hp => ?_
      subst hp
      obtain ⟨-, -, past, hevents, -⟩ := hw.2
      exact hx.2 e rfl ⟨rt, _, past, hevents⟩
  reject _ tk rt resp w hparse hw := by
    refine hw.2.safe fun payload hp => ?_
    subst hp
    obtain ⟨haccess, hlife⟩ := hw.1.2 payload rfl
    have herror := hparse _ rfl
    have hpos : ¬ payload.expiresIn ≤ 0 := by omega
    simp [parseSuccess, haccess, hpos] at herror
  write _ tk rt body a r i x hparse now n w res w' hn hi hw hx :=
    keeps_write hparse now hn hi hw.1.1.1 hw.1.1.2 hw.2 hx
  unwritable _ tk rt body w hnone hw := by
    have hsome := hw.1.1.1
    simp [hnone] at hsome
  invalid _ tk rt body _ := (triple_safe (handleInvalidGrantAsync_performs key rt (.stringGet _)
    .getCurrentInstant)).conseq (fun _ hw => hw.2.safe (by simp)) fun _ _ hw => hw
  release v x := (triple_disposeAsync v).conseq (fun _ hw => hw) fun y _ hw => by
    cases y <;> exact hw

theorem triple_get {call : Call} (hcall : Outline.Gets key call) :
    (protocol key).Triple (uncancelledSystem key) t (fun w => w.awaiting t = none ∧ Unsent key t w)
      call.code fun _ => Safe key t := by
  have hvalid : (outline key t).Valid (protocol key) (uncancelledSystem key) t key := valid
  refine hvalid.triple_call_of ?_ hcall (fun _ _ hw => hw) fun _ _ hw => hw
  refine (triple_safe (removeAsync_performs key (.stringGet _) .remove)).conseq (fun _ h => h)
    fun x w hw => ?_
  cases x <;> exact hw

/-- The operations of the calls that refresh nothing. -/
inductive Ending (key : String) : Op → Prop where
  | plain {o : Op} (h : Plain key o) : Ending key o
  | send (rt : String) : Ending key (.send (.endSession rt))
  | response : Ending key .response

theorem keeps_ending {o : Op} (ho : Ending key o) {w w' : World} {r : o.Res} (hi : Inv key w)
    (hw : Unsent key t w) (hx : World.exec t o w r w') :
    (protocol key).Keeps t w w' ∧ Unsent key t w' := by
  cases ho with
  | plain h =>
    refine ⟨keeps_plain h hi hx, ?_⟩
    obtain ⟨newer, hnew, hnot⟩ := plain_history h hx
    obtain ⟨hexch, -, -⟩ := plain_rest h hx
    refine ⟨fun rt hp => hw.posted rt ?_, fun e he => ?_⟩
    · unfold Posted at hp ⊢
      exact hexch ▸ hp
    · rw [mem_events, hnew] at he
      rcases List.mem_append.mp he with he | he
      · exact hnot _ he
      · exact hw.events e (mem_events.mpr he)
  | send rt =>
    have hw' : w' = afterSend w t (.endSession rt) := hx
    have hsame : Same key w w' := hw' ▸ same_send hw.posted nofun hw.not_updated
    refine ⟨hsame.keeps hi hx, fun rt' hp => ?_, fun e he => ?_⟩
    · simp [hw', Posted, afterSend] at hp
    · have hevents : w'.events t = .sent (.endSession rt) :: w.events t :=
        events_of_history_cons (by rw [hw']; rfl)
      rw [hevents] at he
      rcases List.mem_cons.mp he with rfl | he
      · exact nofun
      · exact hw.events e he
  | response =>
    rcases hx with ⟨request, response, hans, rfl, hw'⟩ | ⟨e, rfl, hw'⟩
    · have hsame : Same key w w' := hw' ▸ same_reply hans
      refine ⟨hsame.keeps (o := .response) hi (.inl ⟨request, response, hans, rfl, hw'⟩), ?_, ?_⟩
      · intro rt hp
        simp [hw', Posted] at hp
      · intro e he
        have hevents : w'.events t = .received request response :: w.events t :=
          events_of_history_cons (by rw [hw']; rfl)
        rw [hevents] at he
        rcases List.mem_cons.mp he with rfl | he
        · intro htracked
          cases htracked with
          | received rt response => exact hw.posted rt (.inr ⟨_, hans⟩)
        · exact hw.events e he
    · have hsame : Same key w w' := hw' ▸ same_giveUp w
      refine ⟨hsame.keeps (o := .response) hi (.inr ⟨e, rfl, hw'⟩), ?_⟩
      subst hw'
      exact ⟨hw.posted, hw.events⟩

theorem triple_ending {α : Type} {p : Code α} {ψ : α → Prop} (h : p.Performs (Ending key) ψ) :
    (protocol key).Triple (uncancelledSystem key) t (Unsent key t) p fun _ => Unsent key t := by
  have hp : p.Performs (fun o => ∀ w r w', (protocol key).inv w → Unsent key t w →
      (uncancelledSystem key).exec t o w r w' → (protocol key).Keeps t w w' ∧ Unsent key t w') ψ :=
    h.mono (fun _ ho _ _ _ hi hw hx => keeps_ending ho hi hw hx.1.1) fun _ h => h
  refine (Protocol.Triple.of_performs ?_ hp).conseq (fun _ h => h) fun _ _ hw => hw.1
  exact fun _ _ hw hr => unsent_same hr.toSameThread hw

/-- A call that has ended owes nothing. -/
def Settled (key : String) (t : ℕ) (w : World) : Prop := Safe key t w ∨ Unsent key t w

theorem stable_settled : (protocol key).Stable t (Settled key t) := by
  intro w w' hw hr
  rcases hw with hw | hw
  · exact .inl (stable_safe w w' hw hr)
  · exact .inr (unsent_same hr.toSameThread hw)

theorem triple_call {call : Call} (hcall : ServesSession key call) :
    (protocol key).Triple (uncancelledSystem key) t (fun w => w.awaiting t = none ∧ Unsent key t w)
      call.code fun _ => Settled key t := by
  have hmap : ∀ {α : Type} {p : Code α} {ψ : α → Prop} (g : α → CallResult),
      p.Performs (Ending key) ψ → (protocol key).Triple (uncancelledSystem key) t
        (fun w => w.awaiting t = none ∧ Unsent key t w) (g <$> p) fun _ => Settled key t :=
    fun g hp => Protocol.Triple.bind (fun _ => Unsent key t)
      ((triple_ending hp).conseq (fun _ hw => hw.2) fun _ _ hw => hw)
      (fun _ => Protocol.Triple.ret fun _ hw => .inr hw) fun _ _ hw => .inr hw
  cases hcall with
  | gets h => exact (triple_get h).conseq (fun _ hw => hw) fun _ _ hw => .inl hw
  | logout rounds =>
    exact hmap _ (mapLogout_performs key (.plain .newGuid) (fun v => .plain (.lockTake v lockTtl))
      (fun v => .plain (.lockRelease v)) (.plain .deadlineReached) (.plain .delay)
      (.plain (.stringGet _)) (fun sid => .plain (.remove sid)) (.plain .getConfiguration) .send
      .response rounds)
  | backchannel sid =>
    exact hmap _ (removeAllForSessionIdAsync_performs sid (.plain (.setMembers _))
      fun members => .plain (.removeAll sid members))

theorem inv_refreshing {w : World} (hw : Refreshing key w) : Inv key w := by
  obtain ⟨ticket, hholds, hexpires, htoken⟩ := hw.holds
  have hgot : ∀ u rt payload, ¬ Got w u rt payload := by
    intro u rt payload hgot
    rcases hgot with hans | hmem
    · cases (hw.exchange u).symm.trans hans
    · simp [hw.history] at hmem
  refine
    { expires := fun tk h => hholds.unique h ▸ hexpires
      present := .inl ⟨ticket, hholds⟩
      issued := fun r hs _ => ?_
      got := fun u rt payload h => absurd h (hgot u rt payload)
      one := fun u _ rt _ payload _ h => absurd h (hgot u rt payload)
      owed := fun u rt payload r h => absurd h (hgot u rt payload)
      asked := fun u rt ha => ?_
      unwritten := fun u rt h => by cases (hw.exchange u).symm.trans h
      processed := fun u rt payload h => by simp [hw.processed] at h
      rotated := fun u rt payload tk h => absurd h (hgot u rt payload) }
  · rcases hs with ⟨u, tk, hmem, -⟩ | ⟨tk, hholds', hr⟩
    · simp [hw.history] at hmem
    · obtain rfl := hholds.unique hholds'
      exact htoken r hr
  · rcases ha with hp | ⟨response, hmem⟩
    · simp [Posted, hw.exchange] at hp
    · simp [hw.history] at hmem

theorem unsent_refreshing {w : World} (hw : Refreshing key w) :
    w.awaiting t = none ∧ Unsent key t w := by
  refine ⟨hw.awaiting t, fun rt hp => ?_, fun e he => ?_⟩
  · simp [Posted, hw.exchange] at hp
  · simp [World.events, hw.history] at he

theorem Settled.kept {w : World} (h : Settled key t w) {rt : String}
    {payload : TokenResponsePayload} (hgot : Got w t rt payload) :
    Updated key w t ∧ (WroteToken key w t payload ∨ Deleted key w) := by
  rcases h with h | h
  · exact h.kept rt payload hgot
  · exact absurd hgot h.not_got

end Protocol

end Rotation

/-- In every run in which no thread is cancelled between Keycloak's rotation and the end
of the read of the response, no rotated token is lost. -/
theorem uncancelled_keeps_rotation {key : String} {w : World} {calls : ℕ → Call} {c : State}
    (hw : Refreshing key w) (hcalls : ∀ t, ServesSession key (calls t))
    (h : (uncancelledSystem key).Reach (initial calls w) c) : RotationKept key c := by
  have hsound : Protocol.Ok (Rotation.protocol key) (uncancelledSystem key)
      (fun t (_ : Except Exn CallResult) => Rotation.Settled key t) (initial calls w) :=
    Protocol.sound (A := fun t s => s.awaiting t = none ∧ Rotation.Unsent key t s)
      (Rotation.inv_refreshing hw) (fun _ => Rotation.unsent_refreshing hw)
      fun t => Rotation.triple_call (hcalls t)
  obtain ⟨hok, -⟩ := hsound.reach (fun _ _ _ => Rotation.keepsAll_event) h
  intro t x rt payload hx hprocessed
  have hi : Rotation.Inv key c.shared := hok.1
  obtain ⟨s, hmeanwhile, hsettled⟩ := hok.outcome hx
  have hgot : Rotation.Got c.shared t rt payload := hi.processed t rt payload hprocessed
  have hnow : Rotation.Settled key t c.shared :=
    Rotation.stable_settled.meanwhile hmeanwhile hsettled
  obtain ⟨hupdated, hkept⟩ := hnow.kept hgot
  exact ⟨hkept, fun ticket hholds => hi.rotated t rt payload ticket hgot hupdated hholds⟩

/-- Answers without failures are steps without cancellation. -/
theorem uncancelled_answer {key : String} {t : ℕ} {o : Op} {w w' : World} {r : o.Res}
    (h : World.answer t o w = some (r, w')) : (uncancelledSystem key).exec t o w r w' := by
  refine ⟨⟨exec_answer h, ?_⟩, ?_⟩
  · cases o with
    | execute txn =>
      obtain ⟨rfl, -⟩ := Prod.mk.inj (Option.some.inj h)
      exact ⟨_, rfl⟩
    | response =>
      intro e he
      subst he
      simp only [World.answer] at h
      split at h
      · cases (Prod.mk.inj (Option.some.inj h)).1
      · cases h
    | _ => trivial
  · cases o with
    | response =>
      intro e he
      subst he
      simp only [World.answer] at h
      split at h
      · cases (Prod.mk.inj (Option.some.inj h)).1
      · cases h
    | readBody =>
      intro e he
      subst he
      cases (Prod.mk.inj (Option.some.inj h)).1
    | _ => trivial

theorem rotating_answer {key : String} {t : ℕ} {o : Op} {w w' : World} {r : o.Res}
    (h : World.answer t o w = some (r, w')) : (rotatingSystem key).exec t o w r w' :=
  (uncancelled_answer h).1

theorem refreshing_staleWorld : Refreshing "a" staleWorld where
  holds := by
    refine ⟨staleTicket, by decide +kernel, rfl, fun r hr => ?_⟩
    obtain rfl := Option.some.inj hr
    exact List.mem_cons_self
  history := rfl
  awaiting _ := rfl
  exchange _ := rfl
  processed := rfl

/-- Keycloak has rotated the token of thread 0, and the response is on its way. -/
def rotationAnswered : State :=
  ⟨holderPosted.threads, holderPosted.shared.keycloakAnswers 0 (.refresh "r0") holderAnswer⟩

theorem rotates_holderAnswer : holderPosted.shared.exchange 0 = .sent (.refresh "r0") ∧
    ∀ body, holderAnswer = .ok body → holderPosted.shared.keycloak.Rotates body := by
  refine ⟨by decide +kernel, fun body hbody => ?_⟩
  obtain rfl := HttpResponse.ok.inj hbody
  exact ⟨_, "r1", rfl, rfl, by decide, by decide +kernel, by decide, by decide⟩

/-- Thread 0 runs to its end. -/
theorem uncancelled_keeps_rotation_refreshed : ∃ c : State,
    (uncancelledSystem "a").Reach (initial getCalls staleWorld) c ∧
      (c.threads 0).outcome? = some (.ok (.access (.token "a1"))) ∧ RotationKept "a" c := by
  have hposted := (System.Reach.refl (S := uncancelledSystem "a")
    (initial getCalls staleWorld)).advance (fun _ _ _ _ _ => uncancelled_answer) 0 10
  obtain ⟨hsent, hrotates⟩ := rotates_holderAnswer
  have hawait : holderPosted.shared.awaiting 0 = some (.refresh "r0") := by decide +kernel
  have hanswered : (uncancelledSystem "a").Reach (initial getCalls staleWorld) rotationAnswered :=
    hposted.env (.keycloakAnswers 0 holderAnswer) _
      ⟨⟨⟨.refresh "r0", hsent, rfl⟩, fun _ body _ hok => hrotates body hok⟩, fun rt body h _ => by
        obtain rfl := HttpRequest.refresh.inj (Exchange.sent.inj (hsent.symm.trans h))
        exact hawait⟩
  have hended := hanswered.advance (fun _ _ _ _ _ => uncancelled_answer) 0 6
  exact ⟨_, hended, by rfl,
    uncancelled_keeps_rotation refreshing_staleWorld (fun _ => .gets (.get 1)) hended⟩

/-- The caller's abort reaches the wait for the response; nothing else fails. -/
def World.abortedAnswer (t : ℕ) : (o : Op) → World → Option (o.Res × World)
  | .response, w =>
    some (.error .operationCanceled, { w with awaiting := Function.update w.awaiting t none })
  | o, w => World.answer t o w

theorem rotating_abortedAnswer {key : String} {t : ℕ} {o : Op} {w w' : World} {r : o.Res}
    (h : World.abortedAnswer t o w = some (r, w')) : (rotatingSystem key).exec t o w r w' := by
  cases o with
  | response =>
    obtain ⟨rfl, rfl⟩ := Prod.mk.inj (Option.some.inj h)
    exact ⟨.inr ⟨_, rfl, rfl⟩, fun e he => (Except.error.inj he).symm⟩
  | _ =>
    have hsame : World.answer t _ w = some (r, w') := h
    exact rotating_answer hsame

/-- Thread 0 is cancelled after the rotation: it lets go of the lock and returns. -/
def rotationLost : State := Config.advance World.abortedAnswer rotationAnswered 0 2

theorem cancelledRefresh_loses_rotation : ∃ c : State, Refreshing "a" staleWorld ∧
    (∀ t, ServesSession "a" (getCalls t)) ∧
    (rotatingSystem "a").Reach (initial getCalls staleWorld) c ∧
      (c.threads 0).outcome? = some (.ok (.access .unavailable)) ∧ ¬ RotationKept "a" c := by
  have hposted := (System.Reach.refl (S := rotatingSystem "a")
    (initial getCalls staleWorld)).advance (fun _ _ _ _ _ => rotating_answer) 0 10
  obtain ⟨hsent, hrotates⟩ := rotates_holderAnswer
  have hanswered : (rotatingSystem "a").Reach (initial getCalls staleWorld) rotationAnswered :=
    hposted.env (.keycloakAnswers 0 holderAnswer) _
      ⟨⟨.refresh "r0", hsent, rfl⟩, fun _ body _ hok => hrotates body hok⟩
  have hlost := hanswered.advance (fun _ _ _ _ _ => rotating_abortedAnswer) 0 2
  have hended : (rotationLost.threads 0).outcome? = some (.ok (.access .unavailable)) := by rfl
  refine ⟨rotationLost, refreshing_staleWorld, fun _ => .gets (.get 1), hlost, hended, ?_⟩
  intro hkept
  have hheld : HoldsTicket rotationLost.shared "a" staleTicket := by decide +kernel
  have hprocessed : (0, HttpRequest.refresh "r0", holderAnswer) ∈
      rotationLost.shared.keycloak.processed := by decide +kernel
  exact (hkept 0 _ "r0" _ hended hprocessed).2 staleTicket hheld rfl

end Decisya.Bff
