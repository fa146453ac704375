import Decisya.Bff.Frames
import Decisya.Concurrency.RelyGuarantee

/-!
# Protocols that single operations keep

A store call draws a key of its own and puts a ticket under it. Every other call works
on keys it was given, and for it a protocol need only be kept by each operation. What a
protocol owes to all calls is therefore a handful of facts about operations.
-/

namespace Decisya.Bff

set_option autoImplicit false

open Concurrency Redis

/-- A key that `t` drew and that no ticket was stored under yet. -/
def Unused (t : ℕ) (k : String) (w : World) : Prop :=
  (t, k) ∈ w.sessionKeys ∧ ∀ ticket, ¬ Stored w k ticket

/-- Session keys are drawn once, before a ticket is stored under them. -/
structure KeysDrawn (w : World) : Prop where
  drawn : ∀ k ticket, Stored w k ticket → ∃ u, (u, k) ∈ w.sessionKeys
  drawn_once : ∀ u u' k, (u, k) ∈ w.sessionKeys → (u', k) ∈ w.sessionKeys → u = u'

/-- The transactions on keys that the caller was given. -/
inductive OnGivenKey : Transaction → Prop where
  | update (key : String) (ticket : AuthenticationTicket) (x : ℤ) :
      OnGivenKey (updateTransaction key ticket x)
  | remove (key : String) (sid : Option String) : OnGivenKey (removeTransaction key sid)
  | removeAll (sid : String) (members : List String) :
      OnGivenKey (removeAllTransaction sid members)

theorem OnGivenKey.ne_store {txn : Transaction} (h : OnGivenKey txn) (k : String)
    (ticket : AuthenticationTicket) (x : ℤ) : txn ≠ storeTransaction k ticket x := by
  cases h with
  | update => exact updateTransaction_ne_store
  | remove => exact removeTransaction_ne_store
  | removeAll => exact removeAllTransaction_ne_store

theorem OnGivenKey.stored {w : World} {t : ℕ} {txn : Transaction} (h : OnGivenKey txn)
    (k : String) (ticket : AuthenticationTicket) :
    Stored (w.execute t txn) k ticket ↔ Stored w k ticket := by
  rw [stored_execute]
  exact ⟨fun hs => hs.elim id fun ⟨x, hx⟩ => absurd hx (h.ne_store k ticket x), .inl⟩

theorem stored_store {w : World} {t : ℕ} {key k : String} {ticket tk : AuthenticationTicket}
    {x : ℤ} (h : Stored (w.execute t (storeTransaction key ticket x)) k tk) :
    Stored w k tk ∨ (k = key ∧ tk = ticket) := by
  rcases stored_execute.mp h with h | ⟨x', h⟩
  · exact .inl h
  · obtain ⟨rfl, rfl⟩ := storeTransaction_inj h
    exact .inr ⟨rfl, rfl⟩

theorem KeysDrawn.of_same {w w' : World} (h : KeysDrawn w)
    (hs : ∀ k ticket, Stored w' k ticket ↔ Stored w k ticket)
    (hkeys : w'.sessionKeys = w.sessionKeys) : KeysDrawn w' where
  drawn k ticket hst := hkeys ▸ h.drawn k ticket ((hs k ticket).mp hst)
  drawn_once := hkeys ▸ h.drawn_once

theorem Unused.of_same {w w' : World} {t : ℕ} {k : String} (h : Unused t k w)
    (hs : ∀ k ticket, Stored w' k ticket ↔ Stored w k ticket)
    (hkeys : w'.sessionKeys = w.sessionKeys) : Unused t k w' :=
  ⟨hkeys ▸ h.1, fun ticket hst => h.2 ticket ((hs k ticket).mp hst)⟩

theorem keysDrawn_store {w : World} {t : ℕ} {key : String} {ticket : AuthenticationTicket} {x : ℤ}
    (h : KeysDrawn w) (hu : Unused t key w) :
    KeysDrawn (w.execute t (storeTransaction key ticket x)) := by
  refine ⟨fun k tk hst => ?_, h.drawn_once⟩
  rcases stored_store hst with hst | ⟨rfl, rfl⟩
  · exact h.drawn k tk hst
  · exact ⟨t, hu.1⟩

/-- Another thread's store leaves one's own unused key alone. -/
theorem unused_store {w : World} {t u : ℕ} {key k : String} {ticket : AuthenticationTicket} {x : ℤ}
    (h : KeysDrawn w) (hu : Unused t key w) (hne : u ≠ t) (hk : Unused u k w) :
    Unused u k (w.execute t (storeTransaction key ticket x)) := by
  refine ⟨hk.1, fun tk hst => ?_⟩
  rcases stored_store hst with hst | ⟨rfl, rfl⟩
  · exact hk.2 tk hst
  · exact hne (h.drawn_once u t k hk.1 hu.1)

theorem keysDrawn_generate {w w' : World} {t : ℕ} {r : String} (h : KeysDrawn w)
    (hx : World.exec t .generateSessionKey w r w') :
    KeysDrawn w' ∧ Unused t r w' ∧ (∀ u k, Unused u k w → Unused u k w') ∧
      (∀ k ticket, Stored w' k ticket ↔ Stored w k ticket) ∧ w'.redis = w.redis := by
  obtain ⟨hfresh, rfl⟩ := hx
  have hunstored : ∀ ticket, ¬ Stored w r ticket := by
    intro ticket hst
    obtain ⟨u, hu⟩ := h.drawn r ticket hst
    exact hfresh u hu
  have honce : ∀ u u' k, (u, k) ∈ (t, r) :: w.sessionKeys → (u', k) ∈ (t, r) :: w.sessionKeys →
      u = u' := by
    intro u u' k hk hk'
    rcases List.mem_cons.mp hk with hk | hk <;> rcases List.mem_cons.mp hk' with hk' | hk'
    · exact (Prod.mk.inj hk).1.trans (Prod.mk.inj hk').1.symm
    · exact absurd ((Prod.mk.inj hk).2 ▸ hk') (hfresh u')
    · exact absurd ((Prod.mk.inj hk').2 ▸ hk) (hfresh u)
    · exact h.drawn_once u u' k hk hk'
  refine ⟨⟨fun k ticket hst => ?_, honce⟩, ⟨List.mem_cons_self, hunstored⟩, fun u k hk => ?_,
    fun _ _ => Iff.rfl, rfl⟩
  · obtain ⟨u, hu⟩ := h.drawn k ticket hst
    exact ⟨u, List.mem_cons_of_mem _ hu⟩
  · exact ⟨List.mem_cons_of_mem _ hk.1, hk.2⟩

/-- What a protocol owes to the calls of thread `t`. -/
structure KeptByCalls (P : Protocol ℕ World) (S : System ℕ Op Op.Res Ev World) (t : ℕ) : Prop where
  within : S.Within system
  quiet : ∀ o w r w', Quiet o → P.inv w → S.exec t o w r w' → P.Keeps t w w'
  givenKey : ∀ txn w r w', OnGivenKey txn → P.inv w → S.exec t (.execute txn) w r w' →
    P.Keeps t w w'
  generate : ∀ w r w', P.inv w → S.exec t .generateSessionKey w r w' →
    P.Keeps t w w' ∧ Unused t r w'
  store : ∀ key ticket x w r w', 0 < x → P.inv w → Unused t key w →
    S.exec t (.execute (storeTransaction key ticket x)) w r w' → P.Keeps t w w'
  stable : ∀ key, P.Stable t (Unused t key)

namespace KeptByCalls
variable {P : Protocol ℕ World} {S : System ℕ Op Op.Res Ev World} {t : ℕ}

/-- An operation that keeps the protocol in every world that meets the invariant. -/
def Keeping (P : Protocol ℕ World) (S : System ℕ Op Op.Res Ev World) (t : ℕ) (o : Op) : Prop :=
  ∀ w r w', P.inv w → S.exec t o w r w' → P.Keeps t w w'

theorem keeping_of_sessionOp (h : KeptByCalls P S t) {key : String} {o : Op}
    (ho : SessionOp key o) : Keeping P S t o := by
  intro w r w' hi hx
  cases ho with
  | update ticket x => exact h.givenKey _ w r w' (.update key ticket x) hi hx
  | remove sid => exact h.givenKey _ w r w' (.remove key sid) hi hx
  | lockTake v => exact h.quiet _ w r w' ⟨key, rfl⟩ hi hx
  | lockRelease v => exact h.quiet _ w r w' ⟨key, rfl⟩ hi hx
  | _ => exact h.quiet _ w r w' trivial hi hx

/-- Code of keeping operations needs no assumption on the store. -/
theorem triple_of_keeping {α : Type} {p : Code α} {ψ : α → Prop}
    (h : p.Performs (Keeping P S t) ψ) : P.Triple S t (fun _ => True) p fun _ _ => True := by
  have hp : p.Performs (fun o => ∀ w r w', P.inv w → True → S.exec t o w r w' →
      P.Keeps t w w' ∧ True) ψ :=
    h.mono (fun o ho w r w' hi _ hx => ⟨ho w r w' hi hx, trivial⟩) fun _ h => h
  exact (Protocol.Triple.of_performs (Protocol.stable_const True) hp).conseq (fun _ h => h)
    fun _ _ _ => trivial

theorem triple_computeExpiry (h : KeptByCalls P S t) {A : World → Prop} (hA : P.Stable t A)
    (ticket : AuthenticationTicket) :
    P.Triple S t A (computeExpiry ticket) fun x w =>
      match x with
      | .ok expiry => A w ∧ 0 < expiry
      | .error _ => True := by
  unfold computeExpiry
  split
  · exact Protocol.Triple.raise fun _ _ => trivial
  · refine Protocol.Triple.bind (fun x w => match x with
      | .ok _ => A w
      | .error _ => False) (Protocol.Triple.perform hA ?_) ?_ ?_
    · intro w r w' hi hw hx
      have hkeep := h.quiet _ w r w' trivial hi hx
      obtain ⟨-, rfl⟩ := h.within.exec _ _ _ _ _ hx
      exact ⟨hkeep, hw⟩
    · intro now
      refine Protocol.Triple.ret fun w hw => ⟨hw, ?_⟩
      dsimp only [ticksPerSecond]
      split <;> omega
    · exact fun _ _ h => h.elim

theorem triple_storeAsync (h : KeptByCalls P S t) (ticket : AuthenticationTicket) :
    P.Triple S t (fun _ => True) (storeAsync ticket) fun _ _ => True := by
  refine Protocol.Triple.bind (fun x w => match x with
    | .ok k => Unused t k w
    | .error _ => False)
    (Protocol.Triple.perform (Protocol.stable_const True) ?_) ?_ fun _ _ h => h.elim
  · exact fun w r w' hi _ hx => h.generate w r w' hi hx
  intro key
  refine Protocol.Triple.bind _ (triple_computeExpiry h (h.stable key) ticket) ?_
    fun _ _ _ => trivial
  intro expiry
  refine Protocol.Triple.bind (fun _ _ => True) ?_
    (fun _ => Protocol.Triple.ret fun _ _ => trivial) fun _ _ _ => trivial
  refine Protocol.Triple.bind (fun _ _ => True) (Protocol.Triple.perform
    ((h.stable key).and (Protocol.stable_const (0 < expiry))) ?_)
    (fun _ => Protocol.Triple.ofExcept fun _ _ => trivial) fun _ _ _ => trivial
  intro w r w' hi hw hx
  exact ⟨h.store key ticket expiry w r w' hw.2 hi hw.1 hx, trivial⟩

theorem triple_map {α : Type} {p : Code α} (g : α → CallResult)
    (h : P.Triple S t (fun _ => True) p fun _ _ => True) :
    P.Triple S t (fun _ => True) (g <$> p) fun _ _ => True :=
  h.bind _ (fun _ => Protocol.Triple.ret fun _ _ => trivial) fun _ _ _ => trivial

/-- Every call keeps the protocol. -/
theorem triple_call (h : KeptByCalls P S t) (call : Call) :
    P.Triple S t (fun _ => True) call.code fun _ _ => True := by
  have hsession : ∀ {key : String} {α : Type} {p : Code α} {ψ : α → Prop},
      p.Performs (SessionOp key) ψ → P.Triple S t (fun _ => True) p fun _ _ => True :=
    fun hp => triple_of_keeping (hp.mono (fun _ => h.keeping_of_sessionOp) fun _ h => h)
  have hquiet : ∀ {o : Op}, Quiet o → Keeping P S t o :=
    fun ho w r w' hi hx => h.quiet _ w r w' ho hi hx
  have hgiven : ∀ {txn : Transaction}, OnGivenKey txn → Keeping P S t (.execute txn) :=
    fun ho w r w' hi hx => h.givenKey _ w r w' ho hi hx
  cases call with
  | store ticket => exact triple_map _ (h.triple_storeAsync ticket)
  | update key ticket =>
    exact triple_map _ (triple_of_keeping (tryUpdateTokensAsync_performs key ticket
      (hquiet trivial) fun x => hgiven (.update key ticket x)))
  | remove key => exact triple_map _ (hsession (removeAsync_ops key))
  | removeAll sid =>
    exact triple_map _ (triple_of_keeping (removeAllForSessionIdAsync_performs sid
      (hquiet trivial) fun members => hgiven (.removeAll sid members)))
  | get key rounds => exact triple_map _ (hsession (getAsync_ops key rounds))
  | invoke key rounds => exact triple_map _ (hsession (invokeAsync_ops key rounds))
  | logout key rounds => exact triple_map _ (hsession (mapLogout_ops key rounds))
  | callbackGuard key =>
    cases key with
    | none => exact Protocol.Triple.ret fun _ _ => trivial
    | some key => exact triple_map _ (hsession (removeAsync_ops key))

end KeptByCalls

end Decisya.Bff
