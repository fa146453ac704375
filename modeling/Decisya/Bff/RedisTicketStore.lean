import Decisya.Bff.World

/-!
# The Redis ticket store

The store's calls as code over the atomic operations. Each transaction has a name of
its own, so that what a call sends to Redis can be spoken of apart from the call.
-/

namespace Decisya.Bff

set_option autoImplicit false

open Concurrency Redis

def ticketKeyPrefix : String := "decisya:bff:ticket:"
def sessionIdSetKeyPrefix : String := "decisya:bff:sid:"

def ticketKeyName (key : String) : String := ticketKeyPrefix ++ key
def sessionIdSetKeyName (sid : String) : String := sessionIdSetKeyPrefix ++ sid

def isTransientStoreFailure : Exn → Bool
  | .redis | .timeout | .operationCanceled => true
  | _ => false

def protect (key : String) (ticket : AuthenticationTicket) : RedisValue := .ticket key ticket

/-- Bytes written under another key do not unprotect (a `CryptographicException`). -/
def unprotect (key : String) : RedisValue → Option AuthenticationTicket
  | .ticket purpose ticket => if purpose = key then some ticket else none
  | .lock _ => none

/-- The remaining lifetime, or one second for a ticket that is past its expiry. -/
def computeExpiry (ticket : AuthenticationTicket) : Code ℤ :=
  match ticket.expiresUtc with
  | none => Prog.raise .invalidOperation
  | some expiresUtc => do
    let now ← Code.getCurrentInstant
    let ttl := expiresUtc - toDateTimeOffset now
    return if 0 < ttl then ttl else ticksPerSecond

def indexCommands (sid : Option String) (key : String) (expiry : ℤ) : List (Command RedisValue) :=
  match sid with
  | none => []
  | some sid =>
    [.sadd (sessionIdSetKeyName sid) key, .expire (sessionIdSetKeyName sid) expiry]

def storeTransaction (key : String) (ticket : AuthenticationTicket) (expiry : ℤ) : Transaction where
  conditions := []
  commands :=
    .set (ticketKeyName key) (protect key ticket) expiry :: indexCommands ticket.sid key expiry

def updateTransaction (key : String) (ticket : AuthenticationTicket) (expiry : ℤ) : Transaction where
  conditions := [.keyExists (ticketKeyName key)]
  commands := [.set (ticketKeyName key) (protect key ticket) expiry]

def removeTransaction (key : String) (sid : Option String) : Transaction where
  conditions := []
  commands := .del (ticketKeyName key) ::
    match sid with
    | none => []
    | some sid => [.srem (sessionIdSetKeyName sid) key]

def removeAllTransaction (sid : String) (members : List String) : Transaction where
  conditions := []
  commands := members.map (fun m => .del (ticketKeyName m)) ++ [.del (sessionIdSetKeyName sid)]

def storeAsync (ticket : AuthenticationTicket) : Code String := do
  let key ← Code.generateSessionKey
  let expiry ← computeExpiry ticket
  let _ ← Code.execute (storeTransaction key ticket expiry)
  return key

def tryUpdateTokensAsync (key : String) (ticket : AuthenticationTicket) : Code Bool := do
  let expiry ← computeExpiry ticket
  Code.execute (updateTransaction key ticket expiry)

/-- A transient failure and bytes that do not unprotect both read as no ticket. -/
def retrieveAsync (key : String) : Code (Option AuthenticationTicket) := do
  match ← Code.stringGet (ticketKeyName key) with
  | .error e => if isTransientStoreFailure e then return none else Prog.raise e
  | .ok none => return none
  | .ok (some value) => return unprotect key value

def removeAsync (key : String) : Code Unit := do
  let existing ← retrieveAsync key
  let _ ← Code.execute (removeTransaction key (existing.bind (·.sid)))

def removeAllForSessionIdAsync (sid : String) : Code Bool := do
  let members ← Code.setMembers (sessionIdSetKeyName sid)
  if members = [] then return false
  let _ ← Code.execute (removeAllTransaction sid members)
  return true

theorem ticketKeyName_inj {k k' : String} : ticketKeyName k = ticketKeyName k' ↔ k = k' :=
  String.append_right_inj ticketKeyPrefix

theorem sessionIdSetKeyName_inj {s s' : String} :
    sessionIdSetKeyName s = sessionIdSetKeyName s' ↔ s = s' :=
  String.append_right_inj sessionIdSetKeyPrefix

/-- The two key families differ from the thirteenth character on. -/
theorem ticketKeyName_ne_sessionIdSetKeyName (k s : String) :
    ticketKeyName k ≠ sessionIdSetKeyName s := by
  intro h
  have h' := congrArg (fun x : String => x.toList.take 13) h
  simp [ticketKeyName, sessionIdSetKeyName, ticketKeyPrefix, sessionIdSetKeyPrefix,
    String.toList_append] at h'

@[simp] theorem unprotect_protect (key : String) (ticket : AuthenticationTicket) :
    unprotect key (protect key ticket) = some ticket := by simp [unprotect, protect]

theorem unprotect_eq_some {key : String} {value : RedisValue} {ticket : AuthenticationTicket} :
    unprotect key value = some ticket ↔ value = protect key ticket := by
  cases value with
  | ticket purpose stored =>
    simp only [unprotect, protect, RedisValue.ticket.injEq]
    split
    · rename_i hp
      simp [hp]
    · rename_i hp
      simp [hp]
  | lock v => simp [unprotect, protect]

/-! ## What each transaction does to the keys -/

section Transactions
variable (db : Db RedisValue)

/-- The entry a `SET` with a time to live leaves behind. -/
def written (key : String) (ticket : AuthenticationTicket) (expiry : ℤ) : Entry RedisValue :=
  ⟨.str (protect key ticket), some (db.now + expiry)⟩

theorem execute_store (key : String) (ticket : AuthenticationTicket) (expiry : ℤ) :
    db.execute (storeTransaction key ticket expiry) =
      (true, db.applyAll (storeTransaction key ticket expiry).commands) := by
  simp [Db.execute, storeTransaction]

theorem execute_remove (key : String) (sid : Option String) :
    db.execute (removeTransaction key sid) =
      (true, db.applyAll (removeTransaction key sid).commands) := by
  simp [Db.execute, removeTransaction]

theorem execute_removeAll (sid : String) (members : List String) :
    db.execute (removeAllTransaction sid members) =
      (true, db.applyAll (removeAllTransaction sid members).commands) := by
  simp [Db.execute, removeAllTransaction]

theorem execute_update (key : String) (ticket : AuthenticationTicket) (expiry : ℤ) :
    db.execute (updateTransaction key ticket expiry) =
      if (db.find? (ticketKeyName key)).isSome then
        (true, db.apply (.set (ticketKeyName key) (protect key ticket) expiry))
      else (false, db) := by
  simp [Db.execute, updateTransaction, Db.holds, Db.applyAll]

theorem indexCommands_key {sid : Option String} {key : String} {expiry : ℤ}
    {c : Command RedisValue} (h : c ∈ indexCommands sid key expiry) :
    ∃ s, sid = some s ∧ c.key = sessionIdSetKeyName s := by
  cases sid with
  | none => simp [indexCommands] at h
  | some s =>
    refine ⟨s, rfl, ?_⟩
    simp only [indexCommands, List.mem_cons, List.not_mem_nil, or_false] at h
    rcases h with rfl | rfl <;> rfl

theorem find?_set (key k : String) (ticket : AuthenticationTicket) (expiry : ℤ) :
    (db.apply (.set (ticketKeyName key) (protect key ticket) expiry)).find? (ticketKeyName k) =
      if k = key then (some (written db key ticket expiry)).filter (Db.live db.now)
      else db.find? (ticketKeyName k) := by
  simp only [Db.apply, Db.find?_put, ticketKeyName_inj, written]

theorem find?_store_ticket (key k : String) (ticket : AuthenticationTicket) (expiry : ℤ) :
    (db.execute (storeTransaction key ticket expiry)).2.find? (ticketKeyName k) =
      if k = key then (some (written db key ticket expiry)).filter (Db.live db.now)
      else db.find? (ticketKeyName k) := by
  rw [execute_store]
  change ((db.apply _).applyAll (indexCommands ticket.sid key expiry)).find? _ = _
  rw [Db.find?_applyAll_ne, find?_set]
  intro c hc
  obtain ⟨s, -, hk⟩ := indexCommands_key hc
  exact hk ▸ ticketKeyName_ne_sessionIdSetKeyName k s

theorem find?_update_ticket (key k : String) (ticket : AuthenticationTicket) (expiry : ℤ) :
    (db.execute (updateTransaction key ticket expiry)).2.find? (ticketKeyName k) =
      if k = key ∧ (db.find? (ticketKeyName key)).isSome then
        (some (written db key ticket expiry)).filter (Db.live db.now)
      else db.find? (ticketKeyName k) := by
  rw [execute_update]
  by_cases hk : k = key <;> by_cases he : (db.find? (ticketKeyName key)).isSome <;>
    simp [hk, he, find?_set]

theorem find?_remove_ticket (key k : String) (sid : Option String) :
    (db.execute (removeTransaction key sid)).2.find? (ticketKeyName k) =
      if k = key then none else db.find? (ticketKeyName k) := by
  rw [execute_remove]
  have hcmd : ∀ c ∈ (removeTransaction key sid).commands,
      c = .del (ticketKeyName key) ∨ ∃ s, c = .srem (sessionIdSetKeyName s) key := by
    intro c hc
    rcases List.mem_cons.mp hc with rfl | hc
    · exact .inl rfl
    · cases sid with
      | none => simp at hc
      | some s => exact .inr ⟨s, by simpa using hc⟩
  by_cases hk : k = key
  · subst hk
    rw [if_pos rfl]
    refine Db.find?_applyAll_del db _ (fun c hc hkey => ?_) (.inr List.mem_cons_self)
    rcases hcmd c hc with rfl | ⟨s, rfl⟩
    · rfl
    · exact absurd hkey.symm (ticketKeyName_ne_sessionIdSetKeyName k s)
  · rw [if_neg hk]
    refine Db.find?_applyAll_ne db _ fun c hc => ?_
    rcases hcmd c hc with rfl | ⟨s, rfl⟩
    · exact fun h => hk (ticketKeyName_inj.mp h)
    · exact ticketKeyName_ne_sessionIdSetKeyName k s

theorem mem_removeAll_commands {sid : String} {members : List String} {c : Command RedisValue} :
    c ∈ (removeAllTransaction sid members).commands ↔
      (∃ m ∈ members, c = .del (ticketKeyName m)) ∨ c = .del (sessionIdSetKeyName sid) := by
  simp only [removeAllTransaction, List.mem_append, List.mem_map, List.mem_singleton]
  constructor
  · rintro (⟨m, hm, rfl⟩ | h)
    · exact .inl ⟨m, hm, rfl⟩
    · exact .inr h
  · rintro (⟨m, hm, rfl⟩ | h)
    · exact .inl ⟨m, hm, rfl⟩
    · exact .inr h

theorem find?_removeAll_ticket (sid k : String) (members : List String) :
    (db.execute (removeAllTransaction sid members)).2.find? (ticketKeyName k) =
      if k ∈ members then none else db.find? (ticketKeyName k) := by
  rw [execute_removeAll]
  by_cases hk : k ∈ members
  · rw [if_pos hk]
    refine Db.find?_applyAll_del db _ (fun c hc hkey => ?_)
      (.inr (mem_removeAll_commands.mpr (.inl ⟨k, hk, rfl⟩)))
    rcases mem_removeAll_commands.mp hc with ⟨m, -, rfl⟩ | rfl
    · exact congrArg _ hkey
    · exact absurd hkey.symm (ticketKeyName_ne_sessionIdSetKeyName k sid)
  · rw [if_neg hk]
    refine Db.find?_applyAll_ne db _ fun c hc => ?_
    rcases mem_removeAll_commands.mp hc with ⟨m, hm, rfl⟩ | rfl
    · rintro h
      exact hk (ticketKeyName_inj.mp h ▸ hm)
    · exact ticketKeyName_ne_sessionIdSetKeyName k sid

/-- Storing leaves every other sid set alone. -/
theorem find?_store_set_ne (key s : String) (ticket : AuthenticationTicket) (expiry : ℤ)
    (h : ticket.sid ≠ some s) :
    (db.execute (storeTransaction key ticket expiry)).2.find? (sessionIdSetKeyName s) =
      db.find? (sessionIdSetKeyName s) := by
  refine Db.find?_execute_ne db _ fun c hc => ?_
  rcases List.mem_cons.mp hc with rfl | hc
  · exact (ticketKeyName_ne_sessionIdSetKeyName key s).symm
  · obtain ⟨s', hs', hk⟩ := indexCommands_key hc
    rw [hk]
    exact fun h' => h (hs' ▸ congrArg some (sessionIdSetKeyName_inj.mp h').symm)

/-- Storing puts the key into its sid set and gives the set the ticket's lifetime. -/
theorem find?_store_set (key s : String) (ticket : AuthenticationTicket) (expiry : ℤ)
    (h : ticket.sid = some s) (hpos : 0 < expiry)
    (hset : ∀ e, db.find? (sessionIdSetKeyName s) = some e → ∃ ms, e.data = .set ms) :
    ∃ ms, (db.execute (storeTransaction key ticket expiry)).2.find? (sessionIdSetKeyName s) =
        some ⟨.set ms, some (db.now + expiry)⟩ ∧
      key ∈ ms ∧ ∀ m ∈ db.members (sessionIdSetKeyName s), m ∈ ms := by
  rw [execute_store]
  simp only [storeTransaction, h, indexCommands, Db.applyAll, List.foldl_cons, List.foldl_nil]
  have hne : sessionIdSetKeyName s ≠ ticketKeyName key :=
    (ticketKeyName_ne_sessionIdSetKeyName key s).symm
  generalize hdb : db.apply (.set (ticketKeyName key) (protect key ticket) expiry) = db₁
  have hnow : db₁.now = db.now := by rw [← hdb]; simp
  have hfind : db₁.find? (sessionIdSetKeyName s) = db.find? (sessionIdSetKeyName s) := by
    rw [← hdb]; exact Db.find?_apply_ne db _ hne
  change ∃ ms, ((db₁.sadd (sessionIdSetKeyName s) key).expire _ expiry).find? _ = _ ∧ _
  have hnow' : (db₁.sadd (sessionIdSetKeyName s) key).now = db.now := by
    rw [← hnow]; exact Db.now_apply db₁ (.sadd _ key)
  cases hs : db.find? (sessionIdSetKeyName s) with
  | none =>
    have hsadd := Db.find?_sadd_none key (hfind.trans hs)
    have hexp := Db.find?_expire hsadd hpos
    rw [hnow'] at hexp
    refine ⟨_, hexp, by simp, ?_⟩
    intro m hm
    obtain ⟨ms, d, h', -⟩ := Db.mem_members.mp hm
    simp [hs] at h'
  | some e =>
    obtain ⟨ms, hms⟩ := hset e hs
    obtain ⟨data, d⟩ := e
    obtain rfl : data = .set ms := hms
    have hsadd := Db.find?_sadd_set key (hfind.trans hs)
    have hexp := Db.find?_expire hsadd hpos
    rw [hnow'] at hexp
    refine ⟨_, hexp, Db.mem_addMember.mpr (.inl rfl), ?_⟩
    intro m hm
    obtain ⟨ms', d', h', hm'⟩ := Db.mem_members.mp hm
    obtain ⟨rfl, -⟩ : ms = ms' ∧ d = d' := by simpa [hs] using h'
    exact Db.mem_addMember.mpr (.inr hm')

theorem find?_update_set (key s : String) (ticket : AuthenticationTicket) (expiry : ℤ) :
    (db.execute (updateTransaction key ticket expiry)).2.find? (sessionIdSetKeyName s) =
      db.find? (sessionIdSetKeyName s) := by
  refine Db.find?_execute_ne db _ fun c hc => ?_
  obtain rfl := List.mem_singleton.mp hc
  exact (ticketKeyName_ne_sessionIdSetKeyName key s).symm

theorem find?_removeAll_set_ne {sid s : String} (members : List String) (h : s ≠ sid) :
    (db.execute (removeAllTransaction sid members)).2.find? (sessionIdSetKeyName s) =
      db.find? (sessionIdSetKeyName s) := by
  refine Db.find?_execute_ne db _ fun c hc => ?_
  rcases mem_removeAll_commands.mp hc with ⟨m, -, rfl⟩ | rfl
  · exact (ticketKeyName_ne_sessionIdSetKeyName m s).symm
  · exact fun h' => h (sessionIdSetKeyName_inj.mp h')

/-- A removal takes at most its own key out of a sid set. -/
theorem find?_remove_set {key s m : String} (sid : Option String) {ms : List String}
    {d : Deadline} (h : db.find? (sessionIdSetKeyName s) = some ⟨.set ms, d⟩) (hm : m ∈ ms)
    (hne : m ≠ key) :
    ∃ ms', (db.execute (removeTransaction key sid)).2.find? (sessionIdSetKeyName s) =
      some ⟨.set ms', d⟩ ∧ m ∈ ms' := by
  rw [execute_remove]
  have hdel : (db.apply (.del (ticketKeyName key))).find? (sessionIdSetKeyName s) =
      some ⟨.set ms, d⟩ := by
    rw [Db.find?_apply_ne db _ (ticketKeyName_ne_sessionIdSetKeyName key s).symm, h]
  cases sid with
  | none => exact ⟨ms, hdel, hm⟩
  | some s' =>
    change ∃ ms', ((db.apply _).srem (sessionIdSetKeyName s') key).find? _ = _ ∧ _
    by_cases hs : s = s'
    · subst hs
      exact ⟨_, Db.find?_srem_of_mem hdel hm hne, by simp [hm, hne]⟩
    · have hk : sessionIdSetKeyName s ≠ sessionIdSetKeyName s' :=
        fun h' => hs (sessionIdSetKeyName_inj.mp h')
      exact ⟨ms, (Db.find?_apply_ne _ (.srem _ key) hk).trans hdel, hm⟩

end Transactions

/-! ## Which operations the calls perform -/

section Ops
variable {φ : Op → Prop}

theorem attempt_performs {α : Type} {ψ : Except Exn α → Prop} {p : Code (Except Exn α)}
    (h : p.Performs φ ψ) : (Code.attempt p).Performs φ fun _ => True :=
  h.bind fun x _ => Prog.Performs.ofExcept x

theorem computeExpiry_performs (ticket : AuthenticationTicket) (hnow : φ .getCurrentInstant) :
    (computeExpiry ticket).Performs φ fun _ => True := by
  unfold computeExpiry
  split
  · trivial
  · exact (Prog.Performs.perform hnow).bind fun _ _ => trivial

theorem storeAsync_performs (ticket : AuthenticationTicket) (hgen : φ .generateSessionKey)
    (hnow : φ .getCurrentInstant)
    (hexec : ∀ key expiry, φ (.execute (storeTransaction key ticket expiry))) :
    (storeAsync ticket).Performs φ fun _ => True :=
  (Prog.Performs.perform hgen).bind fun key _ =>
    (computeExpiry_performs ticket hnow).bind fun expiry _ =>
      (attempt_performs (Prog.Performs.perform (hexec key expiry))).bind fun _ _ => trivial

theorem tryUpdateTokensAsync_performs (key : String) (ticket : AuthenticationTicket)
    (hnow : φ .getCurrentInstant)
    (hexec : ∀ expiry, φ (.execute (updateTransaction key ticket expiry))) :
    (tryUpdateTokensAsync key ticket).Performs φ fun _ => True :=
  (computeExpiry_performs ticket hnow).bind fun expiry _ =>
    attempt_performs (Prog.Performs.perform (hexec expiry))

theorem retrieveAsync_performs (key : String) (hget : φ (.stringGet (ticketKeyName key))) :
    (retrieveAsync key).Performs φ fun _ => True := by
  refine (Prog.Performs.perform hget).bind fun x _ => ?_
  match x with
  | .error e => dsimp only; split <;> trivial
  | .ok none => trivial
  | .ok (some value) => trivial

theorem removeAsync_performs (key : String) (hget : φ (.stringGet (ticketKeyName key)))
    (hexec : ∀ sid, φ (.execute (removeTransaction key sid))) :
    (removeAsync key).Performs φ fun _ => True :=
  (retrieveAsync_performs key hget).bind fun existing _ =>
    (attempt_performs (Prog.Performs.perform (hexec (existing.bind (·.sid))))).bind
      fun _ _ => trivial

theorem removeAllForSessionIdAsync_performs (sid : String)
    (hmembers : φ (.setMembers (sessionIdSetKeyName sid)))
    (hexec : ∀ members, φ (.execute (removeAllTransaction sid members))) :
    (removeAllForSessionIdAsync sid).Performs φ fun _ => True := by
  refine (attempt_performs (Prog.Performs.perform hmembers)).bind fun members _ => ?_
  split
  · trivial
  · exact (attempt_performs (Prog.Performs.perform (hexec members))).bind fun _ _ => trivial

end Ops

end Decisya.Bff
