import Decisya.Bff.Calls

/-!
# Completeness of the sid index behind back-channel logout

Every live ticket that was stored with a `sid` claim should be in the live set of
that `sid`. Three transactions can break this: a set's new expiry may fall before
that of a ticket in it, a write-back may give a ticket an expiry past that of its
set, and a removal of a whole set may miss a ticket added after its members were
read. Runs without such a transaction keep the index complete.
-/

namespace Decisya.Bff

set_option autoImplicit false

open Concurrency Redis

/-- Every live ticket that was stored with `sid` `s` is in the live set of `s`. -/
def Indexed (w : World) : Prop :=
  ∀ k s, StoredWith w k s → (w.ticket? k).isSome → k ∈ w.redis.members (sessionIdSetKeyName s)

/-- The transaction does not lose a live ticket from its sid set. -/
structure IndexKept (w : World) (txn : Transaction) : Prop where
  /-- A set is not given an expiry before that of a live ticket in it. -/
  set_outlives : ∀ s ttl, .expire (sessionIdSetKeyName s) ttl ∈ txn.commands →
    ∀ k e, StoredWith w k s → w.ticket? k = some e →
      e.expiresAt.NoLater (some (w.redis.now + ttl))
  /-- A ticket that is written back does not get an expiry past that of its set. -/
  ticket_within : ∀ k v ttl, .keyExists (ticketKeyName k) ∈ txn.conditions →
    .set (ticketKeyName k) v ttl ∈ txn.commands →
    ∀ s e, StoredWith w k s → w.sidSet? s = some e →
      Deadline.NoLater (some (w.redis.now + ttl)) e.expiresAt
  /-- A set is deleted only together with every live ticket in it. -/
  deletes_all : ∀ s, .del (sessionIdSetKeyName s) ∈ txn.commands →
    ∀ k, StoredWith w k s → (w.ticket? k).isSome → .del (ticketKeyName k) ∈ txn.commands

/-- The runs all of whose transactions keep the index. -/
def indexKeptSystem : System ℕ Op Op.Res Ev World :=
  system.restrict
    (fun _ o w _ _ => match o with
      | .execute txn => IndexKept w txn
      | _ => True)
    fun _ _ _ => True

/-- The reply of a Redis call that did not fail. -/
def Answered : (o : Op) → o.Res → Prop
  | .stringGet _, r => ∃ a, r = .ok a
  | .setMembers _, r => ∃ a, r = .ok a
  | .execute _, r => ∃ a, r = .ok a
  | _, _ => True

/-- Only thread `u` runs, its Redis calls do not fail, and no time passes. -/
def aloneSystem (u : ℕ) : System ℕ Op Op.Res Ev World :=
  system.restrict (fun t o _ r _ => t = u ∧ Answered o r) fun _ _ _ => False

namespace SidIndex

/-- What `Indexed` needs to be inductive. -/
structure Inv (w : World) : Prop extends KeysDrawn w where
  indexed : ∀ k s e, StoredWith w k s → w.ticket? k = some e →
    ∃ ms d, w.sidSet? s = some ⟨.set ms, d⟩ ∧ k ∈ ms ∧ e.expiresAt.NoLater d
  sets : ∀ s e, w.sidSet? s = some e → ∃ ms, e.data = .set ms

theorem Inv.complete {w : World} (h : Inv w) : Indexed w := by
  intro k s hs hlive
  obtain ⟨e, he⟩ := Option.isSome_iff_exists.mp hlive
  obtain ⟨ms, d, hset, hk, -⟩ := h.indexed k s e hs he
  exact Db.mem_members.mpr ⟨ms, d, hset, hk⟩

def protocol : Protocol ℕ World where
  inv := Inv
  guar _ _ := True
  rely t w w' := ∀ k, Unused t k w → Unused t k w'

theorem keepsAll_same {w w' : World} (h : SameStore w w') (hi : Inv w) :
    protocol.KeepsAll w w' where
  inv :=
    { toKeysDrawn := hi.toKeysDrawn.of_same h.stored h.sessionKeys
      indexed := fun k s e hs he => by
        obtain ⟨ticket, hst, hsid⟩ := hs
        rw [h.ticket] at he
        rw [h.sidSet]
        exact hi.indexed k s e ⟨ticket, (h.stored k ticket).mp hst, hsid⟩ he
      sets := fun s e he => hi.sets s e (h.sidSet s ▸ he) }
  guar := trivial
  rely := fun _ _ hu => hu.of_same h.stored h.sessionKeys

/-- A transaction that leaves every stored live ticket in its set. -/
theorem keepsAll_execute {w : World} {t : ℕ} {txn : Transaction} (hi : Inv w)
    (hgiven : OnGivenKey txn)
    (hindexed : ∀ k s e, StoredWith w k s → (w.execute t txn).ticket? k = some e →
      ∃ ms d, (w.execute t txn).sidSet? s = some ⟨.set ms, d⟩ ∧ k ∈ ms ∧ e.expiresAt.NoLater d)
    (hsets : ∀ s e, (w.execute t txn).sidSet? s = some e → ∃ ms, e.data = .set ms) :
    protocol.KeepsAll w (w.execute t txn) := by
  have hst := hgiven.stored (w := w) (t := t)
  refine ⟨⟨hi.toKeysDrawn.of_same hst rfl, ?_, hsets⟩, trivial, fun u k hu => hu.of_same hst rfl⟩
  intro k s e hs he
  obtain ⟨ticket, h, hsid⟩ := hs
  exact hindexed k s e ⟨ticket, (hst k ticket).mp h, hsid⟩ he

theorem keepsAll_update {w : World} {t : ℕ} {key : String} {ticket : AuthenticationTicket} {x : ℤ}
    (hi : Inv w) (hk : IndexKept w (updateTransaction key ticket x)) :
    protocol.KeepsAll w (w.execute t (updateTransaction key ticket x)) := by
  have hset : ∀ s, (w.execute t (updateTransaction key ticket x)).sidSet? s = w.sidSet? s :=
    fun s => find?_update_set w.redis key s ticket x
  refine keepsAll_execute hi (.update key ticket x) ?_ ?_
  · intro k s e hs he
    change (w.redis.execute _).2.find? _ = some e at he
    rw [find?_update_ticket] at he
    rw [hset]
    split at he
    · rename_i hcond
      obtain ⟨rfl, hlive⟩ := hcond
      obtain ⟨e₀, he₀⟩ := Option.isSome_iff_exists.mp hlive
      obtain ⟨ms, d, hs', hmem, -⟩ := hi.indexed k s e₀ hs he₀
      refine ⟨ms, d, hs', hmem, ?_⟩
      obtain ⟨rfl, -⟩ : written w.redis k ticket x = e ∧ _ := by simpa using he
      exact hk.ticket_within k (protect k ticket) x List.mem_cons_self List.mem_cons_self s _ hs hs'
    · exact hi.indexed k s e hs he
  · intro s e he
    exact hi.sets s e (hset s ▸ he)

theorem sets_srem {db : Db RedisValue} {k m : String}
    (h : ∀ e, db.find? k = some e → ∃ ms, e.data = .set ms) :
    ∀ e, (db.srem k m).find? k = some e → ∃ ms, e.data = .set ms := by
  intro e he
  unfold Db.srem at he
  split at he
  · split at he
    · simp at he
    · rw [Db.find?_put_self] at he
      obtain ⟨rfl, -⟩ := by simpa using he
      exact ⟨_, rfl⟩
  · exact h e he

theorem sets_remove {db : Db RedisValue} (key s : String) (sid : Option String)
    (h : ∀ e, db.find? (sessionIdSetKeyName s) = some e → ∃ ms, e.data = .set ms) :
    ∀ e, (db.execute (removeTransaction key sid)).2.find? (sessionIdSetKeyName s) = some e →
      ∃ ms, e.data = .set ms := by
  rw [execute_remove]
  have hdel : (db.apply (.del (ticketKeyName key))).find? (sessionIdSetKeyName s) =
      db.find? (sessionIdSetKeyName s) :=
    Db.find?_apply_ne db _ (ticketKeyName_ne_sessionIdSetKeyName key s).symm
  cases sid with
  | none => exact fun e he => h e (hdel ▸ he)
  | some s' =>
    by_cases hs : s = s'
    · subst hs
      exact sets_srem fun e he => h e (hdel ▸ he)
    · intro e he
      have hk : sessionIdSetKeyName s ≠ sessionIdSetKeyName s' :=
        fun h' => hs (sessionIdSetKeyName_inj.mp h')
      exact h e (hdel ▸ (Db.find?_apply_ne _ (.srem (sessionIdSetKeyName s') key) hk) ▸ he)

theorem keepsAll_remove {w : World} {t : ℕ} {key : String} {sid : Option String} (hi : Inv w) :
    protocol.KeepsAll w (w.execute t (removeTransaction key sid)) := by
  refine keepsAll_execute hi (.remove key sid) ?_ ?_
  · intro k s e hs he
    change (w.redis.execute _).2.find? _ = some e at he
    rw [find?_remove_ticket] at he
    split at he
    · cases he
    · rename_i hne
      obtain ⟨ms, d, hset, hmem, hle⟩ := hi.indexed k s e hs he
      obtain ⟨ms', hset', hmem'⟩ := find?_remove_set w.redis sid hset hmem hne
      exact ⟨ms', d, hset', hmem', hle⟩
  · intro s
    exact sets_remove key s sid (hi.sets s)

theorem keepsAll_removeAll {w : World} {t : ℕ} {sid : String} {members : List String} (hi : Inv w)
    (hk : IndexKept w (removeAllTransaction sid members)) :
    protocol.KeepsAll w (w.execute t (removeAllTransaction sid members)) := by
  have hgone : (w.execute t (removeAllTransaction sid members)).sidSet? sid = none := by
    change (w.redis.execute _).2.find? _ = none
    rw [execute_removeAll]
    refine Db.find?_applyAll_del _ _ (fun c hc hkey => ?_)
      (.inr (mem_removeAll_commands.mpr (.inr rfl)))
    rcases mem_removeAll_commands.mp hc with ⟨m, -, rfl⟩ | rfl
    · exact absurd hkey (ticketKeyName_ne_sessionIdSetKeyName m sid)
    · rfl
  have hother : ∀ s, s ≠ sid →
      (w.execute t (removeAllTransaction sid members)).sidSet? s = w.sidSet? s :=
    fun s hs => find?_removeAll_set_ne w.redis members hs
  refine keepsAll_execute hi (.removeAll sid members) ?_ ?_
  · intro k s e hs he
    change (w.redis.execute _).2.find? _ = some e at he
    rw [find?_removeAll_ticket] at he
    split at he
    · cases he
    · rename_i hnot
      have hne : s ≠ sid := by
        -- a live ticket of the deleted set is among the members that were read
        rintro rfl
        have hlive : (w.ticket? k).isSome := Option.isSome_iff_exists.mpr ⟨e, he⟩
        have hdel := hk.deletes_all s (mem_removeAll_commands.mpr (.inr rfl)) k hs hlive
        rcases mem_removeAll_commands.mp hdel with ⟨m, hm, heq⟩ | heq
        · exact hnot (ticketKeyName_inj.mp (Command.del.inj heq) ▸ hm)
        · exact ticketKeyName_ne_sessionIdSetKeyName k s (Command.del.inj heq)
      rw [hother s hne]
      exact hi.indexed k s e hs he
  · intro s e he
    by_cases hs : s = sid
    · subst hs; simp [hgone] at he
    · exact hi.sets s e (hother s hs ▸ he)

/-- A live ticket stored with a sid stays in its set, and the new ticket enters its own. -/
theorem indexed_store {w : World} {t : ℕ} {key : String} {ticket : AuthenticationTicket} {x : ℤ}
    (hi : Inv w) (hu : Unused t key w) (hpos : 0 < x)
    (hk : IndexKept w (storeTransaction key ticket x)) (k s : String) (e : Entry RedisValue)
    (hs : StoredWith (w.execute t (storeTransaction key ticket x)) k s)
    (he : (w.execute t (storeTransaction key ticket x)).ticket? k = some e) :
    ∃ ms d, (w.execute t (storeTransaction key ticket x)).sidSet? s = some ⟨.set ms, d⟩ ∧
      k ∈ ms ∧ e.expiresAt.NoLater d := by
  obtain ⟨tk, hstored, hsid⟩ := hs
  change (w.redis.execute _).2.find? _ = some e at he
  change ∃ ms d, (w.redis.execute _).2.find? _ = _ ∧ _
  rw [find?_store_ticket] at he
  rcases stored_store hstored with hold | ⟨rfl, rfl⟩
  · have hne : k ≠ key := fun h => hu.2 tk (h ▸ hold)
    rw [if_neg hne] at he
    obtain ⟨ms, d, hset, hmem, hle⟩ := hi.indexed k s e ⟨tk, hold, hsid⟩ he
    by_cases hsid' : ticket.sid = some s
    · obtain ⟨ms', hset', -, hsub⟩ := find?_store_set w.redis key s ticket x hsid' hpos (hi.sets s)
      refine ⟨ms', _, hset', hsub k (Db.mem_members.mpr ⟨ms, d, hset, hmem⟩), ?_⟩
      refine hk.set_outlives s x ?_ k e ⟨tk, hold, hsid⟩ he
      simp [storeTransaction, indexCommands, hsid']
    · rw [find?_store_set_ne w.redis key s ticket x hsid']
      exact ⟨ms, d, hset, hmem, hle⟩
  · rw [if_pos rfl] at he
    obtain ⟨rfl, -⟩ : written w.redis k tk x = e ∧ _ := by simpa using he
    obtain ⟨ms, hset, hmem, -⟩ := find?_store_set w.redis k s tk x hsid hpos (hi.sets s)
    exact ⟨ms, _, hset, hmem, fun _ h => h⟩

/-- Storing under an unused key of one's own. -/
theorem keeps_store {w : World} {t : ℕ} {key : String} {ticket : AuthenticationTicket} {x : ℤ}
    (hi : Inv w) (hu : Unused t key w) (hpos : 0 < x)
    (hk : IndexKept w (storeTransaction key ticket x)) :
    protocol.Keeps t w (w.execute t (storeTransaction key ticket x)) := by
  refine ⟨⟨keysDrawn_store hi.toKeysDrawn hu, indexed_store hi hu hpos hk, ?_⟩, trivial,
    fun u hne k hk' => unused_store hi.toKeysDrawn hu hne hk'⟩
  intro s e he
  change (w.redis.execute _).2.find? _ = some e at he
  by_cases hs : ticket.sid = some s
  · obtain ⟨ms, hset, -, -⟩ := find?_store_set w.redis key s ticket x hs hpos (hi.sets s)
    rw [hset] at he
    cases he
    exact ⟨ms, rfl⟩
  · rw [find?_store_set_ne w.redis key s ticket x hs] at he
    exact hi.sets s e he

theorem keepsAll_redisTick {w : World} (d : ℕ) (hi : Inv w) :
    protocol.KeepsAll w (w.redisTick d) where
  inv :=
    { indexed := fun k s e hs he => by
        obtain ⟨ms, d', hset, hmem, hle⟩ := hi.indexed k s e hs (find?_redisTick he)
        refine ⟨ms, d', Db.find?_of_live hset ?_, hmem, hle⟩
        exact hle _ (Db.live_of_find? he)
      sets := fun s e he => hi.sets s e (find?_redisTick he)
      drawn := hi.drawn
      drawn_once := hi.drawn_once }
  guar := trivial
  rely := fun _ _ hu => hu

theorem keepsAll_event {e : Ev} {w w' : World} (hi : Inv w)
    (hx : indexKeptSystem.env e w w') : protocol.KeepsAll w w' := by
  rcases sameStore_of_event hx.1 with h | ⟨d, rfl⟩
  · exact keepsAll_same h hi
  · exact keepsAll_redisTick d hi

theorem inv_emptyWorld (clock now : ℤ) (kc : Keycloak) : Inv (emptyWorld clock now kc) where
  indexed := fun k s e _ he => by simp [World.ticket?, emptyWorld, Db.find?] at he
  sets := fun s e he => by simp [World.sidSet?, emptyWorld, Db.find?] at he
  drawn := fun k ticket h => by simp [Stored, emptyWorld] at h
  drawn_once := fun u u' k h => by simp [emptyWorld] at h

theorem keeps_generate {t : ℕ} {w w' : World} {r : String} (hi : Inv w)
    (hx : World.exec t .generateSessionKey w r w') : protocol.Keeps t w w' ∧ Unused t r w' := by
  obtain ⟨hdrawn, hunused, hothers, hstored, hredis⟩ := keysDrawn_generate hi.toKeysDrawn hx
  refine ⟨⟨⟨hdrawn, ?_, ?_⟩, trivial, fun u _ => hothers u⟩, hunused⟩
  · intro k s e hs he
    obtain ⟨ticket, hst, hsid⟩ := hs
    unfold World.ticket? at he
    unfold World.sidSet?
    rw [hredis] at he ⊢
    exact hi.indexed k s e ⟨ticket, (hstored k ticket).mp hst, hsid⟩ he
  · intro s e he
    unfold World.sidSet? at he
    rw [hredis] at he
    exact hi.sets s e he

theorem keptByCalls (t : ℕ) : KeptByCalls protocol indexKeptSystem t where
  within := System.within_restrict _ _ _
  quiet _ _ _ _ ho hi hx := (keepsAll_same (sameStore_of_quiet ho hx.1) hi).keeps t
  givenKey txn w r w' htxn hi hx := by
    rcases exec_execute hx.1 with rfl | rfl
    · exact (keepsAll_same (.refl w') hi).keeps t
    · cases htxn with
      | update => exact (keepsAll_update hi hx.2).keeps t
      | remove => exact (keepsAll_remove hi).keeps t
      | removeAll => exact (keepsAll_removeAll hi hx.2).keeps t
  generate _ _ _ hi hx := keeps_generate hi hx.1
  store key ticket x w r w' hpos hi hu hx := by
    rcases exec_execute hx.1 with rfl | rfl
    · exact (keepsAll_same (.refl w') hi).keeps t
    · exact keeps_store hi hu hpos hx.2
  stable key _ _ hu hr := hr key hu

theorem indexed_of_reach {clock now : ℤ} {kc : Keycloak} {calls : ℕ → Call} {c : State}
    (h : indexKeptSystem.Reach (initial calls (emptyWorld clock now kc)) c) : Indexed c.shared := by
  have hsound : Protocol.Ok protocol indexKeptSystem (fun _ _ _ => True)
      (initial calls (emptyWorld clock now kc)) :=
    Protocol.sound (inv_emptyWorld clock now kc) (fun _ => trivial) fun t =>
      (keptByCalls t).triple_call (calls t)
  exact (hsound.reach (fun _ _ _ => keepsAll_event) h).1.1.complete

/-- With nobody else running, nothing happens between two operations of `u`. -/
def aloneProtocol (u : ℕ) : Protocol ℕ World where
  inv _ := True
  guar _ _ := True
  rely t w w' := t = u → w' = w

theorem alone_keeps {u : ℕ} (w w' : World) : (aloneProtocol u).Keeps u w w' :=
  ⟨trivial, trivial, fun _ hv h => absurd h hv⟩

theorem alone_meanwhile {u : ℕ} {w w' : World} (h : (aloneProtocol u).Meanwhile u w w') :
    w' = w := by
  induction h with
  | refl => rfl
  | tail _ hr ih => exact (hr rfl).trans ih

theorem alone_stable {u : ℕ} (A : World → Prop) : (aloneProtocol u).Stable u A :=
  fun _ _ h hr => hr rfl ▸ h

theorem storedWith_removeAll {w : World} {t : ℕ} {sid k s : String} {members : List String} :
    StoredWith (w.execute t (removeAllTransaction sid members)) k s ↔ StoredWith w k s := by
  simp only [StoredWith, stored_execute]
  constructor
  · rintro ⟨ticket, h | ⟨x, h⟩, hs⟩
    · exact ⟨ticket, h, hs⟩
    · exact absurd h removeAllTransaction_ne_store
  · rintro ⟨ticket, h, hs⟩
    exact ⟨ticket, .inl h, hs⟩

/-- From a complete index, a removal that runs alone leaves no live ticket of its sid. -/
theorem alone_removeAll (u : ℕ) (s : String) :
    (aloneProtocol u).Triple (aloneSystem u) u Indexed (Call.removeAll s).code
      fun _ w => ∀ k, StoredWith w k s → w.ticket? k = none := by
  refine Protocol.Triple.bind (fun _ w => ∀ k, StoredWith w k s → w.ticket? k = none) ?_
    (fun _ => Protocol.Triple.ret fun _ h => h) fun _ _ h => h
  refine Protocol.Triple.bind (fun x w => ∃ members, x = .ok members ∧
    members = w.redis.members (sessionIdSetKeyName s) ∧ Indexed w) ?_ ?_ ?_
  · refine Protocol.Triple.bind (fun x w => ∃ members, x = .ok (.ok members) ∧
      members = w.redis.members (sessionIdSetKeyName s) ∧ Indexed w) ?_ ?_ ?_
    · refine Protocol.Triple.perform (alone_stable _) fun w r w' _ hi hx => ?_
      obtain ⟨⟨hr, rfl⟩, -, members, hok⟩ := hx
      refine ⟨alone_keeps _ _, members, congrArg _ hok, ?_, hi⟩
      rcases hr with hr | ⟨e, hr⟩
      · exact Except.ok.inj (hok.symm.trans hr)
      · cases hr.symm.trans hok
    · intro x
      refine Protocol.Triple.ofExcept fun w hx => ?_
      obtain ⟨members, hok, h⟩ := hx
      exact ⟨members, Except.ok.inj hok, h⟩
    · rintro e w ⟨members, h, -⟩
      cases h
  · intro members
    split
    · rename_i hnil
      refine Protocol.Triple.ret fun w hw k hk => ?_
      obtain ⟨members', h, hm, hi⟩ := hw
      obtain rfl := Except.ok.inj h
      by_contra hlive
      have hmem := hi k s hk (Option.isSome_iff_ne_none.mpr hlive)
      simp [← hm, hnil] at hmem
    · refine Protocol.Triple.bind (fun _ w => ∀ k, StoredWith w k s → w.ticket? k = none) ?_
        (fun _ => Protocol.Triple.ret fun _ h => h) fun _ _ h => h
      refine Protocol.Triple.bind (fun _ w => ∀ k, StoredWith w k s → w.ticket? k = none)
        (Protocol.Triple.perform (alone_stable _) fun w r w' _ hw hx => ?_)
        (fun _ => Protocol.Triple.ofExcept fun _ h => h) fun _ _ h => h
      obtain ⟨members', h, hm, hi⟩ := hw
      obtain rfl := Except.ok.inj h
      obtain ⟨hexec, -, ok, hok⟩ := hx
      have hw' : w' = w.execute u (removeAllTransaction s members) := by
        rcases hexec with ⟨-, h⟩ | ⟨e, h, -⟩
        · exact h
        · cases h.symm.trans hok
      subst hw'
      refine ⟨alone_keeps _ _, fun k hk => ?_⟩
      change (w.redis.execute _).2.find? _ = none
      rw [find?_removeAll_ticket]
      split
      · rfl
      · rename_i hnot
        by_contra hlive
        refine hnot (hm ▸ hi k s (storedWith_removeAll.mp hk) ?_)
        exact Option.isSome_iff_ne_none.mpr hlive
  · rintro e w ⟨members, h, -⟩
    cases h

/-- Every other thread stands still. -/
theorem alone_other {u t : ℕ} (h : t ≠ u) (p : Code CallResult) :
    (aloneProtocol u).Triple (aloneSystem u) t (fun _ => True) p fun _ _ => True := by
  induction p with
  | ret a => exact Protocol.Triple.ret fun _ _ => trivial
  | raise e => exact Protocol.Triple.raise fun _ _ => trivial
  | call o k ih =>
    refine Protocol.Triple.call (fun _ _ => True) (Protocol.stable_const True) ?_ ih
    exact fun w r w' _ _ hx => absurd hx.2.1 h

theorem alone_reach {u : ℕ} {s : String} {c c' : State} (hi : Indexed c.shared)
    (hu : c.threads u = (Call.removeAll s).code) (h : (aloneSystem u).Reach c c')
    (hdone : ((c'.threads u).outcome?).isSome) :
    ∀ k, StoredWith c'.shared k s → c'.shared.ticket? k = none := by
  have hsound : Protocol.Ok (aloneProtocol u) (aloneSystem u)
      (fun t _ w => t = u → ∀ k, StoredWith w k s → w.ticket? k = none) c := by
    refine Protocol.sound (A := fun t w => t = u → Indexed w) trivial (fun _ _ => hi) ?_
    intro t
    by_cases ht : t = u
    · subst ht
      rw [hu]
      exact (alone_removeAll t s).conseq (fun _ h => h rfl) fun _ _ h _ => h
    · exact (alone_other ht _).conseq (fun _ _ => trivial) fun _ _ _ h => absurd h ht
  obtain ⟨hok, -⟩ := hsound.reach
    (fun e w w' _ (hx : (aloneSystem u).env e w w') => hx.2.elim) h
  obtain ⟨x, hx⟩ := Option.isSome_iff_exists.mp hdone
  obtain ⟨w, hm, hq⟩ := hok.outcome hx
  rw [alone_meanwhile hm]
  exact hq rfl

/-- The history only grows. -/
theorem storedWith_mono {c c' : State} {S : System ℕ Op Op.Res Ev World} {k s : String}
    (hS : ∀ t o w r w', S.exec t o w r w' → World.exec t o w r w')
    (hE : ∀ e w w', S.env e w w' → e.apply w w') (h : S.Reach c c') :
    StoredWith c.shared k s → StoredWith c'.shared k s := by
  refine System.Reach.shared_rel (R := fun w w' => StoredWith w k s → StoredWith w' k s)
    (fun _ => id) (fun f g => g ∘ f) ?_ ?_ h
  · rintro t o w r w' hx ⟨ticket, ⟨u, b, x, ok, hmem⟩, hsid⟩
    exact ⟨ticket, ⟨u, b, x, ok, history_mono (hS t o w r w' hx) hmem⟩, hsid⟩
  · rintro e w w' hx ⟨ticket, ⟨u, b, x, ok, hmem⟩, hsid⟩
    exact ⟨ticket, ⟨u, b, x, ok, history_event (hE e w w' hx) ▸ hmem⟩, hsid⟩

end SidIndex

def sampleTicket : AuthenticationTicket := ⟨some "s", some 100, ⟨none, none, none, none⟩⟩

/-- Two logins of one SSO session and a back-channel logout of it. -/
def raceCalls : ℕ → Call
  | 1 => .removeAll "s"
  | _ => .store sampleTicket

end Decisya.Bff
