import Mathlib.Logic.Function.Basic
import Mathlib.Data.Int.Notation

/-!
# A key-value server with strings, sets, per-key expiry and atomic transactions

Expiry is lazy: an entry stays in `entries` and `find?` hides it from its deadline
on. Each command and each transaction is one function on the whole database.
-/

namespace Redis

set_option autoImplicit false

/-- What a key holds. -/
inductive Data (V : Type) where
  | str (v : V)
  | set (members : List String)
  deriving DecidableEq, Repr

/-- When a key goes; `none` for a key with no time to live. -/
abbrev Deadline := Option ℤ

def Deadline.isAfter (now : ℤ) : Deadline → Bool
  | none => true
  | some d => decide (now < d)

/-- What is live until `d` is live no longer than what is live until `d'`. -/
def Deadline.NoLater (d d' : Deadline) : Prop :=
  ∀ now, d.isAfter now = true → d'.isAfter now = true

structure Entry (V : Type) where
  data : Data V
  expiresAt : Deadline
  deriving DecidableEq

structure Db (V : Type) where
  now : ℤ
  entries : String → Option (Entry V)

/-- A transaction is refused when one of its conditions fails. -/
inductive Condition where
  | keyExists (key : String)
  deriving DecidableEq, Repr

/-- The commands a transaction may queue; a time to live is relative. -/
inductive Command (V : Type) where
  | set (key : String) (v : V) (ttl : ℤ)
  | del (key : String)
  | sadd (key member : String)
  | srem (key member : String)
  | expire (key : String) (ttl : ℤ)
  deriving DecidableEq, Repr

structure Transaction (V : Type) where
  conditions : List Condition
  commands : List (Command V)
  deriving DecidableEq, Repr

def Command.key {V : Type} : Command V → String
  | .set k _ _ | .del k | .sadd k _ | .srem k _ | .expire k _ => k

namespace Db
variable {V : Type}

def live (now : ℤ) (e : Entry V) : Bool := e.expiresAt.isAfter now

/-- The entry a client sees under `k`. -/
def find? (db : Db V) (k : String) : Option (Entry V) := (db.entries k).filter (live db.now)

def put (db : Db V) (k : String) (e : Option (Entry V)) : Db V :=
  { db with entries := Function.update db.entries k e }

/-- `GET`. -/
def get? (db : Db V) (k : String) : Option V :=
  match db.find? k with
  | some ⟨.str v, _⟩ => some v
  | _ => none

/-- `SMEMBERS`. -/
def members (db : Db V) (k : String) : List String :=
  match db.find? k with
  | some ⟨.set ms, _⟩ => ms
  | _ => []

def addMember (m : String) (ms : List String) : List String :=
  if m ∈ ms then ms else ms ++ [m]

/-- `SADD` makes a missing set; it keeps the expiry of a set that exists. -/
def sadd (db : Db V) (k m : String) : Db V :=
  match db.find? k with
  | none => db.put k (some ⟨.set [m], none⟩)
  | some ⟨.set ms, d⟩ => db.put k (some ⟨.set (addMember m ms), d⟩)
  | some ⟨.str _, _⟩ => db

/-- `SREM` deletes the key with its last member. -/
def srem (db : Db V) (k m : String) : Db V :=
  match db.find? k with
  | some ⟨.set ms, d⟩ =>
    if ms.filter (· ≠ m) = [] then db.put k none
    else db.put k (some ⟨.set (ms.filter (· ≠ m)), d⟩)
  | _ => db

def expire (db : Db V) (k : String) (ttl : ℤ) : Db V :=
  match db.find? k with
  | some e => db.put k (some { e with expiresAt := some (db.now + ttl) })
  | none => db

def apply (db : Db V) : Command V → Db V
  | .set k v ttl => db.put k (some ⟨.str v, some (db.now + ttl)⟩)
  | .del k => db.put k none
  | .sadd k m => db.sadd k m
  | .srem k m => db.srem k m
  | .expire k ttl => db.expire k ttl

def applyAll (db : Db V) (cs : List (Command V)) : Db V := cs.foldl apply db

def holds (db : Db V) : Condition → Bool
  | .keyExists k => (db.find? k).isSome

/-- `MULTI`/`EXEC` with watched conditions: all commands at once, or none of them. -/
def execute (db : Db V) (txn : Transaction V) : Bool × Db V :=
  if txn.conditions.all db.holds then (true, db.applyAll txn.commands) else (false, db)

/-- `SET key v NX` with an expiry. -/
def setNx (db : Db V) (k : String) (v : V) (ttl : ℤ) : Bool × Db V :=
  if (db.find? k).isSome then (false, db) else (true, db.apply (.set k v ttl))

/-- Deletes `k` only while it holds `v`. -/
def deleteIfEquals [DecidableEq V] (db : Db V) (k : String) (v : V) : Bool × Db V :=
  if db.get? k = some v then (true, db.apply (.del k)) else (false, db)

@[simp] theorem now_put (db : Db V) (k : String) (e : Option (Entry V)) :
    (db.put k e).now = db.now := rfl

@[simp] theorem now_apply (db : Db V) (c : Command V) : (db.apply c).now = db.now := by
  cases c <;> simp only [apply, now_put, sadd, srem, expire]
  · split <;> rfl
  · split
    · split <;> rfl
    · rfl
  · split <;> rfl

@[simp] theorem now_applyAll (db : Db V) (cs : List (Command V)) :
    (db.applyAll cs).now = db.now := by
  induction cs generalizing db with
  | nil => rfl
  | cons c cs ih => exact (ih (db.apply c)).trans (now_apply db c)

theorem applyAll_cons (db : Db V) (c : Command V) (cs : List (Command V)) :
    db.applyAll (c :: cs) = (db.apply c).applyAll cs := rfl

theorem find?_put (db : Db V) (k k' : String) (e : Option (Entry V)) :
    (db.put k e).find? k' = if k' = k then e.filter (live db.now) else db.find? k' := by
  by_cases h : k' = k
  · subst h; simp [find?, put]
  · simp [find?, put, h]

@[simp] theorem find?_put_self (db : Db V) (k : String) (e : Option (Entry V)) :
    (db.put k e).find? k = e.filter (live db.now) := by simp [find?_put]

theorem find?_put_ne (db : Db V) {k k' : String} (e : Option (Entry V)) (h : k' ≠ k) :
    (db.put k e).find? k' = db.find? k' := by simp [find?_put, h]

/-- A command changes no key but its own. -/
theorem find?_apply_ne (db : Db V) (c : Command V) {k : String} (h : k ≠ c.key) :
    (db.apply c).find? k = db.find? k := by
  cases c <;> simp only [Command.key] at h <;> simp only [apply, find?_put_ne _ _ h]
  case sadd k' m => unfold sadd; split <;> simp only [find?_put_ne _ _ h]
  case srem k' m =>
    unfold srem
    split
    · split <;> simp only [find?_put_ne _ _ h]
    · rfl
  case expire k' ttl => unfold expire; split <;> simp only [find?_put_ne _ _ h]

theorem find?_applyAll_ne (db : Db V) (cs : List (Command V)) {k : String}
    (h : ∀ c ∈ cs, k ≠ c.key) : (db.applyAll cs).find? k = db.find? k := by
  induction cs generalizing db with
  | nil => rfl
  | cons c cs ih =>
    rw [applyAll_cons, ih _ fun c' hc' => h c' (List.mem_cons_of_mem c hc')]
    exact find?_apply_ne db c (h c List.mem_cons_self)

theorem find?_del (db : Db V) (k : String) : (db.apply (.del k)).find? k = none := by
  simp [apply]

/-- Once deleted, a key stays absent through commands that do not write it. -/
theorem find?_applyAll_del (db : Db V) (cs : List (Command V)) {k : String}
    (h : ∀ c ∈ cs, c.key = k → c = .del k) (hk : db.find? k = none ∨ .del k ∈ cs) :
    (db.applyAll cs).find? k = none := by
  induction cs generalizing db with
  | nil => simpa [applyAll] using hk
  | cons c cs ih =>
    rw [applyAll_cons]
    apply ih _ fun c' hc' => h c' (List.mem_cons_of_mem c hc')
    by_cases hc : c.key = k
    · rw [h c List.mem_cons_self hc]
      exact .inl (find?_del db k)
    · rw [find?_apply_ne db c (Ne.symm hc)]
      rcases hk with hk | hk
      · exact .inl hk
      · rcases List.mem_cons.mp hk with rfl | hk
        · exact absurd rfl hc
        · exact .inr hk

theorem live_of_find? {db : Db V} {k : String} {e : Entry V} (h : db.find? k = some e) :
    live db.now e = true := by
  simp only [find?, Option.filter_eq_some_iff] at h
  exact h.2

theorem get?_eq_some {db : Db V} {k : String} {v : V} :
    db.get? k = some v ↔ ∃ d, db.find? k = some ⟨.str v, d⟩ := by
  unfold get?
  split
  · rename_i v' d h
    rw [h]
    constructor
    · intro hv
      obtain rfl := Option.some.inj hv
      exact ⟨d, rfl⟩
    · intro hv
      obtain ⟨d', hd⟩ := hv
      cases hd
      rfl
  · rename_i hnot
    constructor
    · intro hv
      cases hv
    · intro hv
      obtain ⟨d, hd⟩ := hv
      exact absurd hd (hnot v d)

theorem live_within {now ttl : ℤ} (data : Data V) (h : 0 < ttl) :
    live now ⟨data, some (now + ttl)⟩ = true := by
  simp only [live, Deadline.isAfter, decide_eq_true_eq]
  omega

theorem get?_apply_set (db : Db V) (k : String) (v : V) {ttl : ℤ} (h : 0 < ttl) :
    (db.apply (.set k v ttl)).get? k = some v := by
  rw [get?_eq_some]
  refine ⟨some (db.now + ttl), ?_⟩
  rw [apply, find?_put_self, Option.filter_some, if_pos (live_within (.str v) h)]

theorem live_of_le {now now' : ℤ} {e : Entry V} (h : now ≤ now') (hl : live now' e = true) :
    live now e = true := by
  obtain ⟨data, d⟩ := e
  cases d with
  | none => rfl
  | some d =>
    simp only [live, Deadline.isAfter, decide_eq_true_eq] at hl ⊢
    omega

theorem find?_sadd_none {db : Db V} {k : String} (m : String) (h : db.find? k = none) :
    (db.sadd k m).find? k = some ⟨.set [m], none⟩ := by
  simp [sadd, h, live, Deadline.isAfter, Option.filter]

theorem find?_sadd_set {db : Db V} {k : String} {ms : List String} {d : Deadline} (m : String)
    (h : db.find? k = some ⟨.set ms, d⟩) :
    (db.sadd k m).find? k = some ⟨.set (addMember m ms), d⟩ := by
  have hlive : d.isAfter db.now = true := live_of_find? h
  simp [sadd, h, live, Option.filter, hlive]

theorem find?_expire {db : Db V} {k : String} {e : Entry V} {ttl : ℤ}
    (h : db.find? k = some e) (hl : 0 < ttl) :
    (db.expire k ttl).find? k = some ⟨e.data, some (db.now + ttl)⟩ := by
  have hlive : live db.now ⟨e.data, some (db.now + ttl)⟩ = true := live_within e.data hl
  simp [expire, h, find?_put_self, Option.filter, hlive]

/-- `SREM` takes nothing but its member from a set. -/
theorem find?_srem_of_mem {db : Db V} {k m m' : String} {ms : List String} {d : Deadline}
    (h : db.find? k = some ⟨.set ms, d⟩) (hm : m' ∈ ms) (hne : m' ≠ m) :
    (db.srem k m).find? k = some ⟨.set (ms.filter (· ≠ m)), d⟩ := by
  have hl := live_of_find? h
  have hmem : m' ∈ ms.filter (· ≠ m) := by simp [hm, hne]
  have hnil : ms.filter (· ≠ m) ≠ [] := List.ne_nil_of_mem hmem
  unfold srem
  rw [h]
  dsimp only
  rw [if_neg hnil, find?_put_self]
  simp only [Option.filter_eq_some_iff, true_and]
  exact hl

theorem mem_addMember {m m' : String} {ms : List String} :
    m' ∈ addMember m ms ↔ m' = m ∨ m' ∈ ms := by
  unfold addMember
  split
  · constructor
    · exact .inr
    · rintro (rfl | h)
      · assumption
      · exact h
  · simp [or_comm]

theorem mem_members {db : Db V} {k m : String} :
    m ∈ db.members k ↔ ∃ ms d, db.find? k = some ⟨.set ms, d⟩ ∧ m ∈ ms := by
  unfold members
  split
  · rename_i ms d h
    simp [h]
  · rename_i h
    constructor
    · intro hm; simp at hm
    · rintro ⟨ms, d, h', -⟩
      exact absurd h' (h ms d)

theorem find?_setNx_ne (db : Db V) {k k' : String} (v : V) (ttl : ℤ) (h : k' ≠ k) :
    (db.setNx k v ttl).2.find? k' = db.find? k' := by
  unfold setNx
  split
  · rfl
  · exact find?_apply_ne db _ h

@[simp] theorem now_setNx (db : Db V) (k : String) (v : V) (ttl : ℤ) :
    (db.setNx k v ttl).2.now = db.now := by
  unfold setNx; split <;> simp

theorem find?_deleteIfEquals_ne [DecidableEq V] (db : Db V) {k k' : String} (v : V)
    (h : k' ≠ k) : (db.deleteIfEquals k v).2.find? k' = db.find? k' := by
  unfold deleteIfEquals
  split
  · exact find?_apply_ne db _ h
  · rfl

@[simp] theorem now_deleteIfEquals [DecidableEq V] (db : Db V) (k : String) (v : V) :
    (db.deleteIfEquals k v).2.now = db.now := by
  unfold deleteIfEquals; split <;> simp

@[simp] theorem now_execute (db : Db V) (txn : Transaction V) :
    (db.execute txn).2.now = db.now := by
  unfold execute; split <;> simp

theorem find?_execute_ne (db : Db V) (txn : Transaction V) {k : String}
    (h : ∀ c ∈ txn.commands, k ≠ c.key) : (db.execute txn).2.find? k = db.find? k := by
  unfold execute
  split
  · exact find?_applyAll_ne db txn.commands h
  · rfl

theorem find?_mono_now {db : Db V} {now' : ℤ} (h : db.now ≤ now') {k : String} {e : Entry V}
    (he : ({ db with now := now' } : Db V).find? k = some e) : db.find? k = some e := by
  simp only [find?, Option.filter_eq_some_iff] at he ⊢
  exact ⟨he.1, live_of_le h he.2⟩

theorem find?_of_live {db : Db V} {now' : ℤ} {k : String} {e : Entry V}
    (h : db.find? k = some e) (hl : live now' e = true) :
    ({ db with now := now' } : Db V).find? k = some e := by
  simp only [find?, Option.filter_eq_some_iff] at h ⊢
  exact ⟨h.1, hl⟩

end Db

end Redis
