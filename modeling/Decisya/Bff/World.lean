import Decisya.Concurrency.Program
import Decisya.Redis.Store
import Decisya.Bff.Ticket

/-!
# What the BFF instances share, and the atomic operations of their code

The world is the clock, Redis, Keycloak and the requests under way. `history` is a
ghost: no operation reads it. A call of the session code is one thread; its number
stands for the request, whatever BFF instance serves it.
-/

namespace Decisya.Bff

set_option autoImplicit false

open Concurrency

/-- Exceptions, as far as the source's `catch` filters tell them apart. -/
inductive Exn where
  | redis
  | timeout
  | operationCanceled
  | httpRequest
  | invalidOperation
  deriving DecidableEq, Repr

/-- A ticket is stored protected under a purpose that names its session key. -/
inductive RedisValue where
  | ticket (purpose : String) (ticket : AuthenticationTicket)
  | lock (value : String)
  deriving DecidableEq, Repr

abbrev Transaction := Redis.Transaction RedisValue

/-- `current` are the refresh tokens Keycloak would accept, `issued` all it ever gave,
`processed` the posts it answered, each with the thread that sent it. -/
structure Keycloak where
  current : List String
  issued : List String
  processed : List (ℕ × HttpRequest × HttpResponse)

def Keycloak.answer (kc : Keycloak) (t : ℕ) (request : HttpRequest) (response : HttpResponse) :
    Keycloak where
  current :=
    match request, response with
    | .refresh rt, .ok (some (some payload)) =>
      payload.refreshToken.toList ++ kc.current.filter (· ≠ rt)
    | .refresh _, _ => kc.current
    | .endSession rt, _ => kc.current.filter (· ≠ rt)
  issued :=
    match request, response with
    | .refresh _, .ok (some (some payload)) => payload.refreshToken.toList ++ kc.issued
    | _, _ => kc.issued
  processed := (t, request, response) :: kc.processed

/-- A form post between the client's send and the response at its side. -/
inductive Exchange where
  | idle
  | sent (request : HttpRequest)
  | answered (request : HttpRequest) (response : HttpResponse)
  deriving DecidableEq

/-- What the ghost history records, each with the thread that did it; `released` once
the thread is past its critical section, whatever became of the lock. -/
inductive Event where
  | sent (request : HttpRequest)
  | received (request : HttpRequest) (response : HttpResponse)
  | fetched (key : String) (value : Option RedisValue)
  | executed (before : Redis.Db RedisValue) (txn : Transaction) (ok : Bool)
  | locked (key value : String)
  | released (key value : String)

/-- `sessionKeys` and `lockValues` record which thread drew which random value;
`awaiting` the post a thread is inside of. -/
structure World where
  clock : ℤ
  redis : Redis.Db RedisValue
  keycloak : Keycloak
  sessionKeys : List (ℕ × String)
  lockValues : List (ℕ × String)
  exchange : ℕ → Exchange
  awaiting : ℕ → Option HttpRequest
  history : List (ℕ × Event)

inductive Op where
  | getCurrentInstant
  | generateSessionKey
  | newGuid
  | stringGet (key : String)
  | setMembers (key : String)
  | execute (txn : Transaction)
  | lockTake (key value : String) (ttl : ℤ)
  | lockRelease (key value : String)
  | deadlineReached
  | delay
  | getConfiguration
  | send (request : HttpRequest)
  | response
  | readBody

abbrev Op.Res : Op → Type
  | .getCurrentInstant => ℤ
  | .generateSessionKey | .newGuid => String
  | .stringGet _ => Except Exn (Option RedisValue)
  | .setMembers _ => Except Exn (List String)
  | .execute _ | .lockTake _ _ _ | .lockRelease _ _ => Except Exn Bool
  | .deadlineReached => Bool
  | .delay | .getConfiguration | .readBody => Except Exn Unit
  | .send _ => Unit
  | .response => Except Exn HttpResponse

abbrev Code := Prog Op Op.Res Exn

namespace World

def log (w : World) (t : ℕ) (e : Event) : World := { w with history := (t, e) :: w.history }

/-- The transaction runs on the server. -/
def execute (w : World) (t : ℕ) (txn : Transaction) : World :=
  { w.log t (.executed w.redis txn (w.redis.execute txn).1) with
    redis := (w.redis.execute txn).2 }

def lockTake (w : World) (key value : String) (ttl : ℤ) : World :=
  { w with redis := (w.redis.setNx key (.lock value) ttl).2 }

def lockRelease (w : World) (key value : String) : World :=
  { w with redis := (w.redis.deleteIfEquals key (.lock value)).2 }

/-- One operation of thread `t`. A Redis call may fail before the server has run it
or after; a cancellable call may be cancelled at any time. -/
def exec (t : ℕ) : (o : Op) → World → o.Res → World → Prop
  | .getCurrentInstant, w, r, w' => r = w.clock ∧ w' = w
  | .generateSessionKey, w, r, w' =>
    (∀ u, (u, r) ∉ w.sessionKeys) ∧ w' = { w with sessionKeys := (t, r) :: w.sessionKeys }
  | .newGuid, w, r, w' =>
    (∀ u, (u, r) ∉ w.lockValues) ∧ w' = { w with lockValues := (t, r) :: w.lockValues }
  | .stringGet key, w, r, w' =>
    (r = .ok (w.redis.get? key) ∧ w' = w.log t (.fetched key (w.redis.get? key))) ∨
      ∃ e, r = .error e ∧ w' = w
  | .setMembers key, w, r, w' =>
    (r = .ok (w.redis.members key) ∨ ∃ e, r = .error e) ∧ w' = w
  | .execute txn, w, r, w' =>
    (r = .ok (w.redis.execute txn).1 ∧ w' = w.execute t txn) ∨
      ∃ e, r = .error e ∧ (w' = w ∨ w' = w.execute t txn)
  | .lockTake key value ttl, w, r, w' =>
    (r = .ok true ∧ w.redis.find? key = none ∧
      w' = (w.lockTake key value ttl).log t (.locked key value)) ∨
    (r = .ok false ∧ w.redis.find? key ≠ none ∧ w' = w) ∨
    ∃ e, r = .error e ∧ (w' = w ∨ w' = w.lockTake key value ttl)
  | .lockRelease key value, w, r, w' =>
    (r = .ok (w.redis.deleteIfEquals key (.lock value)).1 ∧
      w' = (w.lockRelease key value).log t (.released key value)) ∨
    ∃ e, r = .error e ∧ (w' = w.log t (.released key value) ∨
      w' = (w.lockRelease key value).log t (.released key value))
  | .deadlineReached, w, _, w' => w' = w
  | .delay, w, r, w' => (r = .ok () ∨ r = .error .operationCanceled) ∧ w' = w
  | .getConfiguration, w, _, w' => w' = w
  | .send request, w, _, w' =>
    w' = { w.log t (.sent request) with
      exchange := Function.update w.exchange t (.sent request)
      awaiting := Function.update w.awaiting t (some request) }
  | .response, w, r, w' =>
    (∃ request response, w.exchange t = .answered request response ∧ r = .ok response ∧
      w' = { w.log t (.received request response) with
        exchange := Function.update w.exchange t .idle
        awaiting := Function.update w.awaiting t none }) ∨
    ∃ e, r = .error e ∧ w' = { w with awaiting := Function.update w.awaiting t none }
  | .readBody, w, r, w' => (r = .ok () ∨ r = .error .operationCanceled) ∧ w' = w

end World

/-- What happens besides the calls: time passes on the BFF's clock and on the Redis
server (where it expires keys), and Keycloak answers a post it received. -/
inductive Ev where
  | clockTick (d : ℕ)
  | redisTick (d : ℕ)
  | keycloakAnswers (t : ℕ) (response : HttpResponse)

def World.redisTick (w : World) (d : ℕ) : World :=
  { w with redis := { w.redis with now := w.redis.now + d } }

/-- Keycloak handles the post of thread `t`, also after the thread has given up on it. -/
def World.keycloakAnswers (w : World) (t : ℕ) (request : HttpRequest)
    (response : HttpResponse) : World :=
  { w with
    exchange := Function.update w.exchange t (.answered request response)
    keycloak := w.keycloak.answer t request response }

def Ev.apply : Ev → World → World → Prop
  | .clockTick d, w, w' => w' = { w with clock := w.clock + d }
  | .redisTick d, w, w' => w' = w.redisTick d
  | .keycloakAnswers t response, w, w' =>
    ∃ request, w.exchange t = .sent request ∧ w' = w.keycloakAnswers t request response

/-- The BFF instances, Redis and Keycloak. -/
abbrev system : System ℕ Op Op.Res Ev World where
  exec := World.exec
  env := Ev.apply

namespace Code
variable {α : Type}

def attempt (p : Code (Except Exn α)) : Code α := p >>= Prog.ofExcept

def getCurrentInstant : Code ℤ := Prog.perform Op.getCurrentInstant
def generateSessionKey : Code String := Prog.perform Op.generateSessionKey
def newGuid : Code String := Prog.perform Op.newGuid
def stringGet (key : String) : Code (Except Exn (Option RedisValue)) :=
  Prog.perform (Op.stringGet key)
def setMembers (key : String) : Code (List String) := attempt (Prog.perform (Op.setMembers key))
def execute (txn : Transaction) : Code Bool := attempt (Prog.perform (Op.execute txn))
def lockTake (key value : String) (ttl : ℤ) : Code (Except Exn Bool) :=
  Prog.perform (Op.lockTake key value ttl)
def lockRelease (key value : String) : Code Bool := attempt (Prog.perform (Op.lockRelease key value))
def deadlineReached : Code Bool := Prog.perform Op.deadlineReached
def delay : Code (Except Exn Unit) := Prog.perform Op.delay
def getConfiguration : Code (Except Exn Unit) := Prog.perform Op.getConfiguration
def send (request : HttpRequest) : Code Unit := Prog.perform (Op.send request)
def response : Code (Except Exn HttpResponse) := Prog.perform Op.response
def readBody : Code Unit := attempt (Prog.perform Op.readBody)

end Code

end Decisya.Bff
