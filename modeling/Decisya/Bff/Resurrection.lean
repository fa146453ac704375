import Decisya.Bff.Outline

/-!
# A deleted ticket key stays deleted

The argument never looks at the lock. A ticket key comes to exist only under a store
call that drew it, and a store call runs its transaction once; the write-back of a
refresh runs only on a key that exists. A refresh that returns its own access token saw
its write-back run, and so ran it on a key that existed.
-/

namespace Decisya.Bff

set_option autoImplicit false

open Concurrency Redis

/-- A ticket was stored under the key at some time. -/
def WasStored (w : World) (k : String) : Prop := ∃ ticket, Stored w k ticket

/-- Some post of `t` was answered by tokens with this access token. -/
def OwnToken (t : ℕ) (accessToken : String) (w : World) : Prop :=
  ∃ request payload, (t, Event.received request (.ok (some (some payload)))) ∈ w.history ∧
    payload.accessToken = some accessToken

/-- `t` wrote a ticket back while its key existed. -/
def WroteBack (t : ℕ) (key : String) (w : World) : Prop :=
  ∃ before ticket expiry,
    (t, Event.executed before (updateTransaction key ticket expiry) true) ∈ w.history ∧
      (before.find? (ticketKeyName key)).isSome

namespace Resurrection

/-! ## Keys -/

structure Inv (w : World) : Prop extends KeysDrawn w where
  live : ∀ k, (w.ticket? k).isSome → WasStored w k

/-- A key that had a ticket and has none does not get one. -/
def StaysDead (w w' : World) : Prop :=
  ∀ k, WasStored w k → WasStored w' k ∧ (w.ticket? k = none → w'.ticket? k = none)

def protocol : Protocol ℕ World where
  inv := Inv
  guar := StaysDead
  rely t w w' := ∀ k, Unused t k w → Unused t k w'

theorem keepsAll_same {w w' : World} (h : SameStore w w') (hi : Inv w) :
    protocol.KeepsAll w w' where
  inv :=
    { toKeysDrawn := hi.toKeysDrawn.of_same h.stored h.sessionKeys
      live := fun k hlive => by
        obtain ⟨ticket, hst⟩ := hi.live k (h.ticket k ▸ hlive)
        exact ⟨ticket, (h.stored k ticket).mpr hst⟩ }
  guar := fun k hk => by
    obtain ⟨ticket, hst⟩ := hk
    exact ⟨⟨ticket, (h.stored k ticket).mpr hst⟩, fun hdead => (h.ticket k).trans hdead⟩
  rely := fun _ _ hu => hu.of_same h.stored h.sessionKeys

/-- Such a transaction gives no ticket to a key that has none. -/
theorem dead_givenKey {db : Db RedisValue} {txn : Transaction} (h : OnGivenKey txn) {k : String}
    (hdead : db.find? (ticketKeyName k) = none) :
    (db.execute txn).2.find? (ticketKeyName k) = none := by
  cases h with
  | update key ticket x =>
    rw [find?_update_ticket]
    split
    · rename_i hcond
      obtain ⟨rfl, hlive⟩ := hcond
      simp [hdead] at hlive
    · exact hdead
  | remove key sid =>
    rw [find?_remove_ticket]
    split
    · rfl
    · exact hdead
  | removeAll sid members =>
    rw [find?_removeAll_ticket]
    split
    · rfl
    · exact hdead

theorem keepsAll_givenKey {w : World} {t : ℕ} {txn : Transaction} (hi : Inv w)
    (h : OnGivenKey txn) : protocol.KeepsAll w (w.execute t txn) := by
  have hst := h.stored (w := w) (t := t)
  have hdead : ∀ k, w.ticket? k = none → (w.execute t txn).ticket? k = none :=
    fun k hk => dead_givenKey h hk
  refine ⟨⟨hi.toKeysDrawn.of_same hst rfl, fun k hlive => ?_⟩, fun k hk => ?_,
    fun u k hu => hu.of_same hst rfl⟩
  · have hlive' : (w.ticket? k).isSome := by
      by_contra hnone
      simp [hdead k (by simpa using hnone)] at hlive
    obtain ⟨ticket, hs⟩ := hi.live k hlive'
    exact ⟨ticket, (hst k ticket).mpr hs⟩
  · obtain ⟨ticket, hs⟩ := hk
    exact ⟨⟨ticket, (hst k ticket).mpr hs⟩, hdead k⟩

theorem keeps_store {w : World} {t : ℕ} {key : String} {ticket : AuthenticationTicket} {x : ℤ}
    (hi : Inv w) (hu : Unused t key w) :
    protocol.Keeps t w (w.execute t (storeTransaction key ticket x)) := by
  have hmono : ∀ k, WasStored w k → WasStored (w.execute t (storeTransaction key ticket x)) k := by
    intro k hk
    obtain ⟨tk, hst⟩ := hk
    exact ⟨tk, stored_execute.mpr (.inl hst)⟩
  have hother : ∀ k, k ≠ key →
      (w.execute t (storeTransaction key ticket x)).ticket? k = w.ticket? k := by
    intro k hne
    exact (find?_store_ticket w.redis key k ticket x).trans (if_neg hne)
  refine ⟨⟨keysDrawn_store hi.toKeysDrawn hu, fun k hlive => ?_⟩, fun k hk => ?_,
    fun u hne k hk => unused_store hi.toKeysDrawn hu hne hk⟩
  · by_cases hk : k = key
    · subst hk
      exact ⟨ticket, stored_execute.mpr (.inr ⟨x, rfl⟩)⟩
    · exact hmono k (hi.live k (hother k hk ▸ hlive))
  · refine ⟨hmono k hk, fun hdead => ?_⟩
    have hne : k ≠ key := by
      intro h
      obtain ⟨tk, hst⟩ := hk
      exact hu.2 tk (h ▸ hst)
    rw [hother k hne, hdead]

theorem ticket?_redisTick {w : World} {d : ℕ} {k : String} (h : w.ticket? k = none) :
    (w.redisTick d).ticket? k = none := by
  by_contra hlive
  obtain ⟨e, he⟩ := Option.ne_none_iff_exists'.mp hlive
  have hfind : w.ticket? k = some e := find?_redisTick he
  simp [h] at hfind

theorem keepsAll_event {e : Ev} {w w' : World} (hi : Inv w) (hx : system.env e w w') :
    protocol.KeepsAll w w' := by
  rcases sameStore_of_event hx with h | ⟨d, rfl⟩
  · exact keepsAll_same h hi
  · refine ⟨⟨hi.toKeysDrawn.of_same (fun _ _ => Iff.rfl) rfl, fun k hlive => hi.live k ?_⟩,
      fun k hk => ⟨hk, ticket?_redisTick⟩,
      fun _ _ hu => hu⟩
    obtain ⟨e, he⟩ := Option.isSome_iff_exists.mp hlive
    exact Option.isSome_iff_exists.mpr ⟨e, find?_redisTick he⟩

theorem keptByCalls (t : ℕ) : KeptByCalls protocol system t where
  within := System.Within.refl system
  quiet _ _ _ _ ho hi hx := (keepsAll_same (sameStore_of_quiet ho hx) hi).keeps t
  givenKey txn w r w' htxn hi hx := by
    rcases exec_execute hx with rfl | rfl
    · exact (keepsAll_same (.refl w') hi).keeps t
    · exact (keepsAll_givenKey hi htxn).keeps t
  generate w r w' hi hx := by
    obtain ⟨hdrawn, hunused, hothers, hstored, hredis⟩ := keysDrawn_generate hi.toKeysDrawn hx
    have hticket : ∀ k, w'.ticket? k = w.ticket? k := fun k => by unfold World.ticket?; rw [hredis]
    refine ⟨⟨⟨hdrawn, fun k hlive => ?_⟩, fun k hk => ?_, fun u _ => hothers u⟩, hunused⟩
    · obtain ⟨ticket, hst⟩ := hi.live k (hticket k ▸ hlive)
      exact ⟨ticket, (hstored k ticket).mpr hst⟩
    · obtain ⟨ticket, hst⟩ := hk
      exact ⟨⟨ticket, (hstored k ticket).mpr hst⟩, fun hdead => (hticket k).trans hdead⟩
  store key ticket x w r w' _ hi hu hx := by
    rcases exec_execute hx with rfl | rfl
    · exact (keepsAll_same (.refl w') hi).keeps t
    · exact keeps_store hi hu
  stable key _ _ hu hr := hr key hu

theorem inv_emptyWorld (clock now : ℤ) (kc : Keycloak) : Inv (emptyWorld clock now kc) where
  drawn := fun k ticket h => by simp [Stored, emptyWorld] at h
  drawn_once := fun u u' k h => by simp [emptyWorld] at h
  live := fun k h => by simp [World.ticket?, emptyWorld, Db.find?] at h

theorem staysDead_trans {w w' : World} (h : Relation.ReflTransGen StaysDead w w') :
    StaysDead w w' := by
  induction h with
  | refl => exact fun k hk => ⟨hk, id⟩
  | tail _ hs ih =>
    intro k hk
    obtain ⟨hk', hdead⟩ := ih k hk
    obtain ⟨hk'', hdead'⟩ := hs k hk'
    exact ⟨hk'', fun h => hdead' (hdead h)⟩

theorem staysDead_of_reach {clock now : ℤ} {kc : Keycloak} {calls : ℕ → Call} {c c' : State}
    (h : system.Reach (initial calls (emptyWorld clock now kc)) c) (h' : system.Reach c c') :
    Inv c.shared ∧ StaysDead c.shared c'.shared := by
  have hsound : Protocol.Ok protocol system (fun _ _ _ => True)
      (initial calls (emptyWorld clock now kc)) :=
    Protocol.sound (inv_emptyWorld clock now kc) (fun _ => trivial) fun t =>
      (keptByCalls t).triple_call (calls t)
  obtain ⟨hok, -⟩ := hsound.reach (fun _ _ _ => keepsAll_event) h
  obtain ⟨-, hguar⟩ := hok.reach (fun _ _ _ => keepsAll_event) h'
  exact ⟨hok.1, staysDead_trans hguar⟩

/-! ## Write-backs -/

/-- Every recorded transaction has the result that its database gives it. -/
def Recorded (w : World) : Prop :=
  ∀ t before txn ok, (t, Event.executed before txn ok) ∈ w.history → ok = (before.execute txn).1

/-- A thread relies on its own history only. -/
def ownProtocol : Protocol ℕ World where
  inv := Recorded
  guar _ _ := True
  rely t w w' := w'.events t = w.events t

theorem recorded_exec {t : ℕ} {o : Op} {w w' : World} {r : o.Res} (hi : Recorded w)
    (hx : World.exec t o w r w') : Recorded w' := by
  intro u before txn ok hmem
  rcases history_exec hx with h | ⟨e, ho, h⟩
  · exact hi u before txn ok (h ▸ hmem)
  · rw [h] at hmem
    rcases List.mem_cons.mp hmem with heq | hmem
    · obtain ⟨-, rfl⟩ := Prod.mk.inj heq
      cases ho with
      | executed =>
        -- the event was logged by the server's own run
        rcases exec_execute hx with rfl | rfl
        · simp at h
        · simp only [World.execute, World.log, List.cons.injEq, Prod.mk.injEq,
            Event.executed.injEq] at h
          obtain ⟨⟨-, rfl, -, rfl⟩, -⟩ := h
          rfl
    · exact hi u before txn ok hmem

theorem keeps_own {t : ℕ} {o : Op} {w w' : World} {r : o.Res} (hi : Recorded w)
    (hx : World.exec t o w r w') : ownProtocol.Keeps t w w' :=
  ⟨recorded_exec hi hx, trivial, fun _ hne => (sameThread_exec hne.symm hx).events⟩

theorem keepsAll_own_event {e : Ev} {w w' : World} (hi : Recorded w) (hx : system.env e w w') :
    ownProtocol.KeepsAll w w' := by
  refine ⟨fun t before txn ok hmem => hi t before txn ok (history_event hx ▸ hmem), trivial,
    fun t => (sameThread_event hx).events⟩

variable (t : ℕ) (key : String)

/-- What `t` received satisfies `φ`. -/
def Replies (φ : HttpResponse → Prop) (w : World) : Prop :=
  ∀ request response, Event.received request response ∈ w.events t → φ response

/-- A run that returns the token of its own post wrote the ticket back. -/
def Post (x : Except Exn AccessTokenResult) (w : World) : Prop :=
  ∀ a, x = .ok (.token a) → OwnToken t a w → WroteBack t key w

def outline : Outline where
  out := Replies t fun _ => False
  held _ := Replies t fun _ => False
  read _ _ := Replies t fun _ => False
  sent _ _ _ := Replies t fun _ => False
  replied _ _ _ resp := Replies t (· = resp)
  ended _ := Post t key
  post := Post t key

variable {t key}

theorem post_of_replies {φ : HttpResponse → Prop} {w : World} (h : Replies t φ w)
    (hφ : ∀ payload, ¬ φ (.ok (some (some payload)))) (x : Except Exn AccessTokenResult) :
    Post t key x w := by
  intro a _ hown
  obtain ⟨request, payload, hmem, -⟩ := hown
  exact absurd (h request _ (mem_events.mpr hmem)) (hφ payload)

theorem post_of_ne_token {w : World} {x : Except Exn AccessTokenResult}
    (h : ∀ a, x ≠ .ok (.token a)) : Post t key x w := fun a ha => absurd ha (h a)

theorem stable_replies (φ : HttpResponse → Prop) : ownProtocol.Stable t (Replies t φ) := by
  intro w w' h hr request response hmem
  rw [hr] at hmem
  exact h request response hmem

theorem replies_exec {φ : HttpResponse → Prop} {o : Op} (ho : o ≠ .response) {w w' : World}
    {r : o.Res} (hx : World.exec t o w r w') (h : Replies t φ w) : Replies t φ w' := by
  intro request response hmem
  rcases events_exec hx with he | ⟨e, hlogs, he⟩
  · exact h request response (he ▸ hmem)
  · rw [he] at hmem
    rcases List.mem_cons.mp hmem with rfl | hmem
    · cases hlogs
      exact absurd rfl ho
    · exact h request response hmem

theorem stable_post (x : Except Exn AccessTokenResult) : ownProtocol.Stable t (Post t key x) := by
  intro w w' h hr a hx hown
  have hiff : ∀ e, (t, e) ∈ w'.history ↔ (t, e) ∈ w.history := by
    intro e
    rw [← mem_events, ← mem_events, hr]
  obtain ⟨request, payload, hmem, ha⟩ := hown
  obtain ⟨before, ticket, expiry, hmem', hlive⟩ := h a hx ⟨request, payload, (hiff _).mp hmem, ha⟩
  exact ⟨before, ticket, expiry, (hiff _).mpr hmem', hlive⟩

theorem post_exec {o : Op} (ho : o ≠ .response) {w w' : World} {r : o.Res}
    (hx : World.exec t o w r w') {x : Except Exn AccessTokenResult} (h : Post t key x w) :
    Post t key x w' := by
  intro a ha hown
  obtain ⟨request, payload, hmem, haccess⟩ := hown
  have hold : (t, Event.received request (.ok (some (some payload)))) ∈ w.history := by
    rw [← mem_events] at hmem ⊢
    rcases events_exec hx with he | ⟨e, hlogs, he⟩
    · exact he ▸ hmem
    · rw [he] at hmem
      rcases List.mem_cons.mp hmem with rfl | hmem
      · cases hlogs
        exact absurd rfl ho
      · exact hmem
  obtain ⟨before, ticket, expiry, hmem', hlive⟩ := h a ha ⟨request, payload, hold, haccess⟩
  exact ⟨before, ticket, expiry, history_mono hx hmem', hlive⟩

/-- Code that awaits no response. -/
theorem triple_replies {α : Type} {p : Code α} {ψ : α → Prop} (φ : HttpResponse → Prop)
    (h : p.Performs (· ≠ .response) ψ) :
    ownProtocol.Triple system t (Replies t φ) p fun x w =>
      Replies t φ w ∧ ∀ a, x = .ok a → ψ a :=
  Protocol.Triple.of_performs (stable_replies φ)
    (h.mono (fun _ ho _ _ _ hi hw hx => ⟨keeps_own hi hx, replies_exec ho hx hw⟩) fun _ h => h)

theorem triple_post {α : Type} {p : Code α} {ψ : α → Prop} (x : Except Exn AccessTokenResult)
    (h : p.Performs (· ≠ .response) ψ) :
    ownProtocol.Triple system t (Post t key x) p fun _ w => Post t key x w :=
  (Protocol.Triple.of_performs (stable_post x)
    (h.mono (fun _ ho _ _ _ hi hw hx => ⟨keeps_own hi hx, post_exec ho hx hw⟩)
      fun _ h => h)).conseq (fun _ h => h) fun _ _ h => h.1

theorem read_replies {p : Code (Option AuthenticationTicket)}
    (h : p.Performs (· ≠ .response) fun _ => True) :
    Outline.ReadTriple ownProtocol system t (Replies t fun _ => False) p
      (fun _ => Replies t fun _ => False) (Post t key) :=
  .of_triple (triple_replies _ h) (fun _ hw => post_of_replies hw.1 (fun _ h => h) _)
    (fun _ _ hw => hw.1) fun _ _ hw => post_of_replies hw.1 (fun _ h => h) _

/-- The write-back: its result decides what is returned. -/
theorem post_write {tk : AuthenticationTicket} {n : ℤ} {w w' : World} {res : Except Exn Bool}
    (hx : World.exec t (.execute (updateTransaction key tk n)) w res w') (a : String) :
    Post t key (afterWrite a res) w' := by
  intro b hb _
  rcases hx with ⟨rfl, rfl⟩ | ⟨e, rfl, -⟩
  · cases hok : (w.redis.execute (updateTransaction key tk n)).1 with
    | false => simp [hok, afterWrite] at hb
    | true =>
      have hmem : (t, Event.executed w.redis (updateTransaction key tk n) true) ∈
          (w.execute t (updateTransaction key tk n)).history := by
        rw [← hok]
        exact List.mem_cons_self
      refine ⟨w.redis, tk, n, hmem, ?_⟩
      by_contra hnone
      rw [execute_update, if_neg hnone] at hok
      cases hok
  · cases hb

theorem valid : (outline t key).Valid ownProtocol system t key where
  within := System.Within.refl system
  still w hi := ⟨hi, trivial, fun _ _ => rfl⟩
  stable_out := stable_replies _
  stable_read _ _ := stable_replies _
  stable_sent _ _ _ := stable_replies _
  stable_replied _ _ _ _ := stable_replies _
  stop w x hw _ := post_of_replies hw (fun _ h => h) x
  authenticate := read_replies (authenticateAsync_performs key (by simp) (by simp) (by simp))
  wait := read_replies (retrieveAsync_performs key (by simp))
  acquire := by
    refine (triple_replies _ (tryAcquireAsync_performs key (by simp) (by simp))).conseq
      (fun _ h => h) fun x w hw => ?_
    rcases x with e | (e | (_ | handle))
    · exact hw.1
    · exact hw.1
    · exact hw.1
    · exact ⟨hw.2 _ rfl handle rfl, hw.1⟩
  fetch _ := read_replies (retrieveAsync_performs key (by simp))
  read_stop _ _ w x hw _ := post_of_replies hw (fun _ h => h) x
  read_none _ _ w hw _ := post_of_replies hw (fun _ h => h) _
  send _ _ w r w' _ hi hw hx :=
    ⟨keeps_own (o := .send _) (r := r) hi hx,
      replies_exec (o := .send _) (r := r) (by simp) hx hw⟩
  reply _ _ rt w r w' hi hw hx := by
    refine ⟨keeps_own (o := .response) hi hx, ?_⟩
    rcases hx with ⟨request, response, -, rfl, rfl⟩ | ⟨e, rfl, rfl⟩
    · intro request' response' hmem
      rw [events_of_history_cons (w := w) rfl] at hmem
      rcases List.mem_cons.mp hmem with heq | hmem
      · exact (Event.received.inj heq).2
      · exact (hw request' response' hmem).elim
    · exact fun x _ => post_of_replies hw (fun _ (h : False) => h) x
  body _ _ _ _ w r w' hi hw hx := by
    refine ⟨keeps_own (o := .readBody) hi hx, ?_⟩
    cases r with
    | ok _ => exact replies_exec (o := .readBody) (by simp) hx hw
    | error e => exact post_of_ne_token (by simp)
  reject _ _ _ _ w _ _ := post_of_ne_token (by simp)
  write _ _ _ _ a _ _ _ _ _ _ _ _ _ _ hi _ hx :=
    ⟨keeps_own (o := .execute _) hi hx, post_write hx a⟩
  unwritable _ _ _ _ w _ _ := post_of_ne_token (by simp)
  invalid _ tk rt body _ := by
    refine (triple_replies _ (handleInvalidGrantAsync_performs key rt (by simp)
      (by simp))).conseq (fun _ h => h) fun x w hw => ?_
    exact post_of_replies hw.1 (by simp) x
  release v x := by
    refine (triple_post x (disposeAsync_performs _ (by simp))).conseq (fun _ h => h) ?_
    intro y w hw
    cases y with
    | ok _ => exact hw
    | error e => exact post_of_ne_token (by simp)

theorem triple_get {call : Call} (hcall : Outline.Gets key call) :
    ownProtocol.Triple system t (Replies t fun _ => False) call.code
      (Outline.accessPost (Post t key)) := by
  have hvalid : (outline t key).Valid ownProtocol system t key := valid
  refine hvalid.triple_call ?_ hcall
  refine (triple_post (.ok .sessionEnded) (removeAsync_performs key (by simp) (by simp))).conseq
    (fun _ h => h) fun x w hw => ?_
  cases x with
  | ok _ => exact hw
  | error e => exact post_of_ne_token (by simp)

theorem wroteBack_of_reach {clock now : ℤ} {kc : Keycloak} {calls : ℕ → Call} {c : State}
    (h : system.Reach (initial calls (emptyWorld clock now kc)) c) {t : ℕ} {key : String}
    (hcall : Outline.Gets key (calls t)) {a : String}
    (hout : (c.threads t).outcome? = some (.ok (.access (.token a))))
    (hown : OwnToken t a c.shared) : WroteBack t key c.shared := by
  have hsound : Protocol.Ok ownProtocol system
      (fun u x w => u = t → Outline.accessPost (Post t key) x w)
      (initial calls (emptyWorld clock now kc)) := by
    refine Protocol.sound (A := fun u w => u = t → Replies t (fun _ => False) w) ?_ ?_ ?_
    · intro u before txn ok hmem
      simp [initial, emptyWorld] at hmem
    · intro u _ request response hmem
      simp [initial, emptyWorld, World.events] at hmem
    · intro u
      by_cases hu : u = t
      · subst hu
        exact (triple_get hcall).conseq (fun _ h => h rfl) fun _ _ h _ => h
      · exact (Protocol.Triple.of_keeps (fun _ _ _ _ => keeps_own) _).conseq
          (fun _ _ => trivial) fun _ _ _ h => absurd h hu
  obtain ⟨hok, -⟩ := hsound.reach (fun _ _ _ => keepsAll_own_event) h
  obtain ⟨w, hm, hpost⟩ := hok.outcome hout
  exact (stable_post _).meanwhile hm (hpost rfl) a rfl hown

end Resurrection

/-- A ticket key that existed and does not, does not come back; and a `GetAsync` that
returns the access token of its own refresh post wrote the ticket back at a moment when
its key existed. Locks may expire at any time. -/
theorem loggedOut_stays_out {clock now : ℤ} {keycloak : Keycloak} {calls : ℕ → Call}
    {c c' : State} (h : system.Reach (initial calls (emptyWorld clock now keycloak)) c)
    (h' : system.Reach c c') :
    (∀ k, (c.shared.ticket? k).isSome → c'.shared.ticket? k = none →
      ∀ c'', system.Reach c' c'' → c''.shared.ticket? k = none) ∧
    ∀ t key a, Outline.Gets key (calls t) →
      (c'.threads t).outcome? = some (.ok (.access (.token a))) →
      OwnToken t a c'.shared → WroteBack t key c'.shared := by
  constructor
  · intro k hlive hdead c'' h''
    obtain ⟨hinv, hstays⟩ := Resurrection.staysDead_of_reach h h'
    obtain ⟨-, hstays'⟩ := Resurrection.staysDead_of_reach (h.trans h') h''
    have hstored : WasStored c'.shared k := (hstays k (hinv.live k hlive)).1
    exact (hstays' k hstored).2 hdead
  · intro t key a hcall hout hown
    exact Resurrection.wroteBack_of_reach (h.trans h') hcall hout hown

/-- A login, and a logout of it. -/
def logoutCalls : ℕ → Call
  | 0 => .store ⟨none, some 100, ⟨none, none, none, none⟩⟩
  | _ => .logout "a" 1

theorem loggedOut_stays_out_after_logout : ∃ c' : State,
    system.Reach (initial logoutCalls (emptyWorld 0 0 ⟨[], [], []⟩)) c' ∧
      c'.shared.ticket? "a" = none ∧
      ∀ c'', system.Reach c' c'' → c''.shared.ticket? "a" = none := by
  have h0 := System.Reach.refl (S := system)
    (initial logoutCalls (emptyWorld 0 0 ⟨[], [], []⟩))
  have h1 := h0.run 0 rfl "a" _ ⟨by simp [initial, emptyWorld], rfl⟩
  have h2 := h1.run 0 rfl 0 _ ⟨rfl, rfl⟩
  have h3 := h2.run 0 rfl (.ok true) _ (.inl ⟨rfl, rfl⟩)
  have k0 := (fun {c : State} (_ : system.Reach _ c) => System.Reach.refl (S := system) c) h3
  have k1 := k0.run 1 rfl "v" _ ⟨fun _ => List.not_mem_nil, rfl⟩
  have k2 := k1.run 1 rfl (.ok true) _ (.inl ⟨rfl, rfl, rfl⟩)
  have k3 := k2.run 1 rfl (.ok _) _ (.inl ⟨rfl, rfl⟩)
  have k4 := k3.run 1 rfl (.ok _) _ (.inl ⟨rfl, rfl⟩)
  have k5 := k4.run 1 rfl (.ok true) _ (.inl ⟨rfl, rfl⟩)
  exact ⟨_, h3.trans k5, rfl, (loggedOut_stays_out h3 k5).1 "a" rfl rfl⟩

end Decisya.Bff
