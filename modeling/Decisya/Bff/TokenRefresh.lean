import Decisya.Bff.RedisTicketStore

/-!
# The refresh lock, the Keycloak client and the access-token state machine

A polling loop takes a number of rounds: its deadline bounds them, and a run that
uses them up leaves the loop the way the deadline does. `rounds` is arbitrary in
every result.
-/

namespace Decisya.Bff

set_option autoImplicit false

open Concurrency

/-! ## RedisRefreshLock -/

def lockKeyPrefix : String := "decisya:bff:refresh-lock:"

def lockKeyName (sessionKey : String) : String := lockKeyPrefix ++ sessionKey

def lockTtl : ℤ := 10 * ticksPerSecond

structure LockHandle where
  lockKey : String
  lockValue : String
  deriving DecidableEq, Repr

def tryAcquireAsync (sessionKey : String) : Code (Except Exn (Option LockHandle)) := do
  let lockValue ← Code.newGuid
  match ← Code.lockTake (lockKeyName sessionKey) lockValue lockTtl with
  | .error e => return .error e
  | .ok true => return .ok (some ⟨lockKeyName sessionKey, lockValue⟩)
  | .ok false => return .ok none

def LockHandle.disposeAsync (handle : LockHandle) : Code Unit := do
  let _ ← Code.lockRelease handle.lockKey handle.lockValue

/-- The bounded wait of `/bff/logout`; `none` when the lock was not obtained. -/
def acquireOrWaitAsync (sessionKey : String) : ℕ → Code (Option LockHandle)
  | 0 => return none
  | rounds + 1 => do
    match ← tryAcquireAsync sessionKey with
    | .error e => if e = .operationCanceled then return none else Prog.raise e
    | .ok (some handle) => return some handle
    | .ok none =>
      if ← Code.deadlineReached then return none
      match ← Code.delay with
      | .error _ => return none
      | .ok () => acquireOrWaitAsync sessionKey rounds

/-! ## KeycloakTokenClient -/

def invalidGrantMarker : String := "invalid_grant"

def isTransientCallFailure : Exn → Bool
  | .httpRequest | .operationCanceled | .invalidOperation => true
  | _ => false

def refreshAsync (refreshToken : String) : Code TokenRefreshResult := do
  match ← Code.getConfiguration with
  | .error e => if isTransientCallFailure e then return .error else Prog.raise e
  | .ok () =>
    Code.send (.refresh refreshToken)
    match ← Code.response with
    | .error e => if isTransientCallFailure e then return .error else Prog.raise e
    | .ok (.ok body) => do
      Code.readBody
      return parseSuccess refreshToken body
    | .ok (.status code body) =>
      if code = 400 then
        Code.readBody
        return if bodyContains body invalidGrantMarker then .invalidGrant else .error
      else return .error

/-- Every failure is in the result; nothing is thrown for one. -/
def endSessionAsync (refreshToken : String) : Code Bool := do
  match ← Code.getConfiguration with
  | .error e => if isTransientCallFailure e then return false else Prog.raise e
  | .ok () =>
    Code.send (.endSession refreshToken)
    match ← Code.response with
    | .error e => if isTransientCallFailure e then return false else Prog.raise e
    | .ok (.ok _) => return true
    | .ok (.status code _) => return decide (200 ≤ code ∧ code < 300)

/-! ## AccessTokenProvider -/

def handleInvalidGrantAsync (sessionKey refreshTokenJustSent : String) :
    Code AccessTokenResult := do
  match ← retrieveAsync sessionKey with
  | none => return .sessionEnded
  | some raceTicket =>
    let now ← Code.getCurrentInstant
    if raceTicket.tokens.refreshToken ≠ some refreshTokenJustSent then
      match isFresh now raceTicket with
      | some raceAccessToken => return .token raceAccessToken
      | none => return .sessionEnded
    else return .sessionEnded

/-- What `RefreshUnderLockAsync` does with the client's answer. -/
def applyRefreshResult (sessionKey : String) (reReadTicket : AuthenticationTicket)
    (refreshToken : String) : TokenRefreshResult → Code AccessTokenResult
  | .success accessToken rotated idToken expiresIn => do
    let now ← Code.getCurrentInstant
    let updated ← tryUpdateTokensAsync sessionKey
      (applyRefreshedTokens now reReadTicket accessToken rotated idToken expiresIn)
    return if updated then .token accessToken else .sessionEnded
  | .invalidGrant => handleInvalidGrantAsync sessionKey refreshToken
  | .error => return .unavailable

def refreshUnderLockAsync (sessionKey : String) : Code AccessTokenResult := do
  match ← retrieveAsync sessionKey with
  | none => return .sessionEnded
  | some reReadTicket =>
    let now ← Code.getCurrentInstant
    match isFresh now reReadTicket with
    | some reReadAccessToken => return .token reReadAccessToken
    | none =>
      if isNullOrEmpty reReadTicket.tokens.refreshToken then return .sessionEnded
      let refreshToken := reReadTicket.tokens.refreshToken.getD ""
      let refreshResult ← refreshAsync refreshToken
      applyRefreshResult sessionKey reReadTicket refreshToken refreshResult

/-- The loop of `GetAsync`: take the lock and refresh, or wait and look again. -/
def acquireAndRefresh (sessionKey : String) : ℕ → Code AccessTokenResult
  | 0 => return .unavailable
  | rounds + 1 => do
    if ← Code.deadlineReached then return .unavailable
    match ← tryAcquireAsync sessionKey with
    | .error e => if e = .operationCanceled then return .unavailable else Prog.raise e
    | .ok (some handle) => (refreshUnderLockAsync sessionKey).tryFinally handle.disposeAsync
    | .ok none =>
      match ← Code.delay with
      | .error e => if e = .operationCanceled then return .unavailable else Prog.raise e
      | .ok () =>
        match ← retrieveAsync sessionKey with
        | none => return .sessionEnded
        | some waitingTicket =>
          let now ← Code.getCurrentInstant
          match isFresh now waitingTicket with
          | some waitingAccessToken => return .token waitingAccessToken
          | none => acquireAndRefresh sessionKey rounds

/-- The cookie handler behind `AuthenticateAsync`: it reads the ticket of the session
key, and removes one that is past its expiry. -/
def authenticateAsync (sessionKey : String) : Code (Option AuthenticationTicket) := do
  match ← retrieveAsync sessionKey with
  | none => return none
  | some ticket =>
    let now ← Code.getCurrentInstant
    if ticket.expiresUtc.any (fun e => decide (e < toDateTimeOffset now)) then
      removeAsync sessionKey
      return none
    else return some ticket

def getAsync (sessionKey : String) (rounds : ℕ) : Code AccessTokenResult := do
  match ← authenticateAsync sessionKey with
  | none => return .sessionEnded
  | some ticket =>
    let now ← Code.getCurrentInstant
    match isFresh now ticket with
    | some currentAccessToken => return .token currentAccessToken
    | none => acquireAndRefresh sessionKey rounds

/-! ## What uses them: the middleware, `/bff/logout` and the callback guard -/

/-- The cookie handler's sign-out deletes the ticket of its session key. -/
def signOutAsync (sessionKey : String) : Code Unit := removeAsync sessionKey

/-- `AccessTokenMiddleware.InvokeAsync`, up to what it forwards. -/
def invokeAsync (sessionKey : String) (rounds : ℕ) : Code AccessTokenResult := do
  let result ← getAsync sessionKey rounds
  if result = .sessionEnded then signOutAsync sessionKey
  return result

/-- The `try` block of `/bff/logout`. -/
def endSessionAndSignOut (sessionKey : String) : Code Unit := do
  let ticket ← retrieveAsync sessionKey
  let refreshToken := ticket.bind (·.tokens.refreshToken)
  if isNullOrEmpty refreshToken then signOutAsync sessionKey
  else
    let _ ← endSessionAsync (refreshToken.getD "")
    signOutAsync sessionKey

/-- `POST /bff/logout` up to the redirect, for a request with a session key. The wait
for the lock may fail; the rest of the logout runs regardless. -/
def mapLogout (sessionKey : String) (rounds : ℕ) : Code Unit := do
  match ← acquireOrWaitAsync sessionKey rounds with
  | none => endSessionAndSignOut sessionKey
  | some lockHandle => (endSessionAndSignOut sessionKey).tryFinally lockHandle.disposeAsync

/-- The removal half of `RemoveExistingSessionOnCallbackAsync`; `none` when the cookie
names no session key. -/
def removeExistingSession : Option String → Code Unit
  | none => return ()
  | some oldSessionKey => removeAsync oldSessionKey

/-! ## The calls whose interleavings are studied -/

inductive Call where
  | store (ticket : AuthenticationTicket)
  | update (key : String) (ticket : AuthenticationTicket)
  | remove (key : String)
  | removeAll (sid : String)
  | get (sessionKey : String) (rounds : ℕ)
  | invoke (sessionKey : String) (rounds : ℕ)
  | logout (sessionKey : String) (rounds : ℕ)
  | callbackGuard (oldSessionKey : Option String)

inductive CallResult where
  | stored (key : String)
  | flag (b : Bool)
  | access (result : AccessTokenResult)
  | done
  deriving DecidableEq, Repr

def Call.code : Call → Code CallResult
  | .store ticket => CallResult.stored <$> storeAsync ticket
  | .update key ticket => CallResult.flag <$> tryUpdateTokensAsync key ticket
  | .remove key => (fun _ => CallResult.done) <$> removeAsync key
  | .removeAll sid => CallResult.flag <$> removeAllForSessionIdAsync sid
  | .get key rounds => CallResult.access <$> getAsync key rounds
  | .invoke key rounds => CallResult.access <$> invokeAsync key rounds
  | .logout key rounds => (fun _ => CallResult.done) <$> mapLogout key rounds
  | .callbackGuard key => (fun _ => CallResult.done) <$> removeExistingSession key

abbrev State := Config ℕ Op Op.Res Exn CallResult World

/-- Every thread at the start of its call. -/
def initial (calls : ℕ → Call) (w : World) : State := ⟨fun t => (calls t).code, w⟩

/-- A call that has not begun, or has ended. -/
def Idle (calls : ℕ → Call) (c : State) (t : ℕ) : Prop :=
  c.threads t = (calls t).code ∨ ((c.threads t).outcome?).isSome

theorem lockKeyName_inj {k k' : String} : lockKeyName k = lockKeyName k' ↔ k = k' :=
  String.append_right_inj lockKeyPrefix

theorem lockKeyName_ne_ticketKeyName (k k' : String) : lockKeyName k ≠ ticketKeyName k' := by
  intro h
  have h' := congrArg (fun x : String => x.toList.take 13) h
  simp [ticketKeyName, lockKeyName, ticketKeyPrefix, lockKeyPrefix, String.toList_append] at h'

theorem lockKeyName_ne_sessionIdSetKeyName (k s : String) :
    lockKeyName k ≠ sessionIdSetKeyName s := by
  intro h
  have h' := congrArg (fun x : String => x.toList.take 13) h
  simp [sessionIdSetKeyName, lockKeyName, sessionIdSetKeyPrefix, lockKeyPrefix,
    String.toList_append] at h'

/-! ## Which operations the calls perform -/

section Performs
variable {φ : Op → Prop} (sessionKey : String)

theorem tryAcquireAsync_performs (hguid : φ .newGuid)
    (htake : ∀ v, φ (.lockTake (lockKeyName sessionKey) v lockTtl)) :
    (tryAcquireAsync sessionKey).Performs φ
      fun r => ∀ handle, r = .ok (some handle) → handle.lockKey = lockKeyName sessionKey := by
  refine (Prog.Performs.perform hguid).bind fun v _ => ?_
  refine (Prog.Performs.perform (htake v)).bind fun r _ => ?_
  match r with
  | .error e => intro handle h; cases h
  | .ok true => intro handle h; cases h; rfl
  | .ok false => intro handle h; cases h

theorem disposeAsync_performs (handle : LockHandle)
    (h : φ (.lockRelease handle.lockKey handle.lockValue)) :
    handle.disposeAsync.Performs φ fun _ => True :=
  (attempt_performs (Prog.Performs.perform h)).bind fun _ _ => trivial

theorem handleInvalidGrantAsync_performs (sent : String)
    (hget : φ (.stringGet (ticketKeyName sessionKey))) (hnow : φ .getCurrentInstant) :
    (handleInvalidGrantAsync sessionKey sent).Performs φ fun _ => True := by
  refine (retrieveAsync_performs sessionKey hget).bind fun r _ => ?_
  match r with
  | none => trivial
  | some ticket =>
    refine (Prog.Performs.perform hnow).bind fun now _ => ?_
    split
    · split <;> trivial
    · trivial

theorem authenticateAsync_performs (hget : φ (.stringGet (ticketKeyName sessionKey)))
    (hnow : φ .getCurrentInstant)
    (hremove : ∀ sid, φ (.execute (removeTransaction sessionKey sid))) :
    (authenticateAsync sessionKey).Performs φ fun _ => True := by
  refine (retrieveAsync_performs sessionKey hget).bind fun r _ => ?_
  match r with
  | none => trivial
  | some ticket =>
    refine (Prog.Performs.perform hnow).bind fun now _ => ?_
    split
    · exact (removeAsync_performs sessionKey hget hremove).bind fun _ _ => trivial
    · trivial

theorem acquireOrWaitAsync_performs (hguid : φ .newGuid)
    (htake : ∀ v, φ (.lockTake (lockKeyName sessionKey) v lockTtl)) (hdeadline : φ .deadlineReached)
    (hdelay : φ .delay) (rounds : ℕ) :
    (acquireOrWaitAsync sessionKey rounds).Performs φ
      fun r => ∀ handle, r = some handle → handle.lockKey = lockKeyName sessionKey := by
  induction rounds with
  | zero => intro handle h; cases h
  | succ rounds ih =>
    refine (tryAcquireAsync_performs sessionKey hguid htake).bind fun r hr => ?_
    match r with
    | .error e =>
      dsimp only
      split
      · intro handle h; cases h
      · trivial
    | .ok (some handle) => intro handle' h; cases h; exact hr handle rfl
    | .ok none =>
      refine (Prog.Performs.perform hdeadline).bind fun b _ => ?_
      split
      · intro handle h; cases h
      · refine (Prog.Performs.perform hdelay).bind fun r _ => ?_
        match r with
        | .error e => intro handle h; cases h
        | .ok () => exact ih

theorem endSessionAsync_performs (refreshToken : String) (hconfig : φ .getConfiguration)
    (hsend : φ (.send (.endSession refreshToken))) (hresponse : φ .response) :
    (endSessionAsync refreshToken).Performs φ fun _ => True := by
  refine (Prog.Performs.perform hconfig).bind fun r _ => ?_
  match r with
  | .error e => dsimp only; split <;> trivial
  | .ok () =>
    refine (Prog.Performs.perform hsend).bind fun _ _ => ?_
    refine (Prog.Performs.perform hresponse).bind fun r _ => ?_
    match r with
    | .error e => dsimp only; split <;> trivial
    | .ok (.ok body) => trivial
    | .ok (.status code body) => trivial

theorem endSessionAndSignOut_performs (hget : φ (.stringGet (ticketKeyName sessionKey)))
    (hremove : ∀ sid, φ (.execute (removeTransaction sessionKey sid)))
    (hconfig : φ .getConfiguration) (hsend : ∀ rt, φ (.send (.endSession rt)))
    (hresponse : φ .response) :
    (endSessionAndSignOut sessionKey).Performs φ fun _ => True := by
  refine (retrieveAsync_performs sessionKey hget).bind fun ticket _ => ?_
  dsimp only
  split
  · exact removeAsync_performs sessionKey hget hremove
  · exact (endSessionAsync_performs _ hconfig (hsend _) hresponse).bind fun _ _ =>
      removeAsync_performs sessionKey hget hremove

/-- The operations of a logout: it writes no ticket and posts no refresh token. -/
theorem mapLogout_performs (hguid : φ .newGuid)
    (htake : ∀ v, φ (.lockTake (lockKeyName sessionKey) v lockTtl))
    (hrelease : ∀ v, φ (.lockRelease (lockKeyName sessionKey) v)) (hdeadline : φ .deadlineReached)
    (hdelay : φ .delay) (hget : φ (.stringGet (ticketKeyName sessionKey)))
    (hremove : ∀ sid, φ (.execute (removeTransaction sessionKey sid)))
    (hconfig : φ .getConfiguration) (hsend : ∀ rt, φ (.send (.endSession rt)))
    (hresponse : φ .response) (rounds : ℕ) :
    (mapLogout sessionKey rounds).Performs φ fun _ => True := by
  have hend : (endSessionAndSignOut sessionKey).Performs φ fun _ => True :=
    endSessionAndSignOut_performs sessionKey hget hremove hconfig hsend hresponse
  refine (acquireOrWaitAsync_performs sessionKey hguid htake hdeadline hdelay rounds).bind
    fun r hr => ?_
  match r with
  | none => exact hend
  | some handle =>
    have hkey : handle.lockKey = lockKeyName sessionKey := hr handle rfl
    exact hend.tryFinally (disposeAsync_performs handle (hkey ▸ hrelease handle.lockValue))

end Performs

/-- The operations of the code that works on one session key. -/
inductive SessionOp (sessionKey : String) : Op → Prop where
  | getCurrentInstant : SessionOp sessionKey .getCurrentInstant
  | newGuid : SessionOp sessionKey .newGuid
  | stringGet : SessionOp sessionKey (.stringGet (ticketKeyName sessionKey))
  | update (ticket : AuthenticationTicket) (expiry : ℤ) :
      SessionOp sessionKey (.execute (updateTransaction sessionKey ticket expiry))
  | remove (sid : Option String) :
      SessionOp sessionKey (.execute (removeTransaction sessionKey sid))
  | lockTake (value : String) :
      SessionOp sessionKey (.lockTake (lockKeyName sessionKey) value lockTtl)
  | lockRelease (value : String) : SessionOp sessionKey (.lockRelease (lockKeyName sessionKey) value)
  | deadlineReached : SessionOp sessionKey .deadlineReached
  | delay : SessionOp sessionKey .delay
  | getConfiguration : SessionOp sessionKey .getConfiguration
  | send (request : HttpRequest) : SessionOp sessionKey (.send request)
  | response : SessionOp sessionKey .response
  | readBody : SessionOp sessionKey .readBody

section Ops
variable (sessionKey : String)

theorem retrieveAsync_ops :
    (retrieveAsync sessionKey).Performs (SessionOp sessionKey) fun _ => True :=
  retrieveAsync_performs sessionKey .stringGet

theorem removeAsync_ops : (removeAsync sessionKey).Performs (SessionOp sessionKey) fun _ => True :=
  removeAsync_performs sessionKey .stringGet .remove

theorem tryAcquireAsync_ops : (tryAcquireAsync sessionKey).Performs (SessionOp sessionKey)
    fun r => ∀ handle, r = .ok (some handle) → handle.lockKey = lockKeyName sessionKey :=
  tryAcquireAsync_performs sessionKey .newGuid .lockTake

theorem disposeAsync_ops {handle : LockHandle} (h : handle.lockKey = lockKeyName sessionKey) :
    handle.disposeAsync.Performs (SessionOp sessionKey) fun _ => True :=
  disposeAsync_performs handle (h ▸ .lockRelease handle.lockValue)

theorem refreshAsync_ops (refreshToken : String) :
    (refreshAsync refreshToken).Performs (SessionOp sessionKey) fun _ => True := by
  refine (Prog.Performs.perform .getConfiguration).bind fun r _ => ?_
  match r with
  | .error e => dsimp only; split <;> trivial
  | .ok () =>
    refine (Prog.Performs.perform (.send _)).bind fun _ _ => ?_
    refine (Prog.Performs.perform .response).bind fun r _ => ?_
    match r with
    | .error e => dsimp only; split <;> trivial
    | .ok (.ok body) =>
      exact (attempt_performs (Prog.Performs.perform .readBody)).bind fun _ _ => trivial
    | .ok (.status code body) =>
      dsimp only
      split
      · exact (attempt_performs (Prog.Performs.perform .readBody)).bind fun _ _ => trivial
      · trivial

theorem handleInvalidGrantAsync_ops (sent : String) :
    (handleInvalidGrantAsync sessionKey sent).Performs (SessionOp sessionKey) fun _ => True :=
  handleInvalidGrantAsync_performs sessionKey sent .stringGet .getCurrentInstant

theorem applyRefreshResult_ops (ticket : AuthenticationTicket) (sent : String)
    (result : TokenRefreshResult) :
    (applyRefreshResult sessionKey ticket sent result).Performs (SessionOp sessionKey)
      fun _ => True := by
  match result with
  | .success a r i x =>
    refine (Prog.Performs.perform .getCurrentInstant).bind fun now _ => ?_
    exact (tryUpdateTokensAsync_performs sessionKey _ .getCurrentInstant fun expiry =>
      .update _ expiry).bind fun _ _ => trivial
  | .invalidGrant => exact handleInvalidGrantAsync_ops sessionKey sent
  | .error => trivial

theorem refreshUnderLockAsync_ops :
    (refreshUnderLockAsync sessionKey).Performs (SessionOp sessionKey) fun _ => True := by
  refine (retrieveAsync_ops sessionKey).bind fun r _ => ?_
  match r with
  | none => trivial
  | some ticket =>
    refine (Prog.Performs.perform .getCurrentInstant).bind fun now _ => ?_
    dsimp only
    split
    · trivial
    · split
      · trivial
      · exact (refreshAsync_ops sessionKey _).bind fun result _ =>
          applyRefreshResult_ops sessionKey ticket _ result

theorem acquireAndRefresh_ops (rounds : ℕ) :
    (acquireAndRefresh sessionKey rounds).Performs (SessionOp sessionKey) fun _ => True := by
  induction rounds with
  | zero => trivial
  | succ rounds ih =>
    refine (Prog.Performs.perform .deadlineReached).bind fun b _ => ?_
    split
    · trivial
    · refine (tryAcquireAsync_ops sessionKey).bind fun r hr => ?_
      match r with
      | .error e => dsimp only; split <;> trivial
      | .ok (some handle) =>
        exact (refreshUnderLockAsync_ops sessionKey).tryFinally
          (disposeAsync_ops sessionKey (hr handle rfl))
      | .ok none =>
        refine (Prog.Performs.perform .delay).bind fun r _ => ?_
        match r with
        | .error e => dsimp only; split <;> trivial
        | .ok () =>
          refine (retrieveAsync_ops sessionKey).bind fun r _ => ?_
          match r with
          | none => trivial
          | some ticket =>
            refine (Prog.Performs.perform .getCurrentInstant).bind fun now _ => ?_
            split
            · trivial
            · exact ih

theorem authenticateAsync_ops :
    (authenticateAsync sessionKey).Performs (SessionOp sessionKey) fun _ => True :=
  authenticateAsync_performs sessionKey .stringGet .getCurrentInstant .remove

theorem getAsync_ops (rounds : ℕ) :
    (getAsync sessionKey rounds).Performs (SessionOp sessionKey) fun _ => True := by
  refine (authenticateAsync_ops sessionKey).bind fun r _ => ?_
  match r with
  | none => trivial
  | some ticket =>
    refine (Prog.Performs.perform .getCurrentInstant).bind fun now _ => ?_
    split
    · trivial
    · exact acquireAndRefresh_ops sessionKey rounds

theorem invokeAsync_ops (rounds : ℕ) :
    (invokeAsync sessionKey rounds).Performs (SessionOp sessionKey) fun _ => True := by
  refine (getAsync_ops sessionKey rounds).bind fun result _ => ?_
  split
  · exact (removeAsync_ops sessionKey).bind fun _ _ => trivial
  · trivial

theorem mapLogout_ops (rounds : ℕ) :
    (mapLogout sessionKey rounds).Performs (SessionOp sessionKey) fun _ => True :=
  mapLogout_performs sessionKey .newGuid .lockTake .lockRelease .deadlineReached .delay .stringGet
    .remove .getConfiguration (fun rt => .send (.endSession rt)) .response rounds

end Ops

end Decisya.Bff
