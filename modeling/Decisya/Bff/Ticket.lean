import Mathlib.Data.List.Infix
import Mathlib.Algebra.Order.Ring.Int

/-!
# The authentication ticket, its tokens, and Keycloak's answers

The part of a ticket that the session code reads: the `sid` claim, the absolute
expiry and the four token items. An item that is absent is `none`. The text of
`expires_at` is kept as what parsing it gives. Clock instants are nanoseconds, as
in NodaTime; `DateTimeOffset` values are ticks of 100 ns.
-/

namespace Decisya.Bff

set_option autoImplicit false

structure Tokens where
  accessToken : Option String
  refreshToken : Option String
  idToken : Option String
  /-- The inner `none` is a text that does not parse. -/
  expiresAt : Option (Option ℤ)
  deriving DecidableEq, Repr

structure AuthenticationTicket where
  sid : Option String
  expiresUtc : Option ℤ
  tokens : Tokens
  deriving DecidableEq, Repr

/-- `UpdateTokenValue` replaces an item that exists and adds none. -/
def updateTokenValue {α : Type} (item : Option α) (value : α) : Option α :=
  item.map fun _ => value

/-- Truncates towards the start of time, as a `DateTimeOffset` has no finer part. -/
def toDateTimeOffset (instant : ℤ) : ℤ := instant / 100

def ticksPerSecond : ℤ := 10000000

def refreshLeadTime : ℤ := 30 * ticksPerSecond

def isNullOrEmpty (s : Option String) : Bool := s.getD "" == ""

/-- The access token of a fresh ticket; `none` where the source returns `false`. -/
def isFresh (now : ℤ) (ticket : AuthenticationTicket) : Option String :=
  match ticket.tokens.accessToken, ticket.tokens.expiresAt with
  | some accessToken, some (some expiresAt) =>
    if accessToken ≠ "" ∧ refreshLeadTime < expiresAt - toDateTimeOffset now then some accessToken
    else none
  | _, _ => none

structure TokenResponsePayload where
  accessToken : Option String
  refreshToken : Option String
  idToken : Option String
  expiresIn : ℤ
  deriving DecidableEq, Repr

/-- A 200 body is kept as what reading it as JSON gives: `none` is a `JsonException`,
`some none` the JSON `null`. -/
inductive HttpResponse where
  | ok (body : Option (Option TokenResponsePayload))
  | status (code : ℕ) (body : String)
  deriving DecidableEq, Repr

/-- The two form posts the session code sends to Keycloak. -/
inductive HttpRequest where
  | refresh (refreshToken : String)
  | endSession (refreshToken : String)
  deriving DecidableEq, Repr

inductive TokenRefreshResult where
  | success (accessToken refreshToken : String) (idToken : Option String) (expiresIn : ℤ)
  | invalidGrant
  | error
  deriving DecidableEq, Repr

inductive AccessTokenResult where
  | token (accessToken : String)
  | sessionEnded
  | unavailable
  deriving DecidableEq, Repr

/-- `ParseSuccessAsync` on the body it read. -/
def parseSuccess (previousRefreshToken : String) :
    Option (Option TokenResponsePayload) → TokenRefreshResult
  | some (some payload) =>
    if isNullOrEmpty payload.accessToken ∨ payload.expiresIn ≤ 0 then .error
    else .success (payload.accessToken.getD "")
      (if isNullOrEmpty payload.refreshToken then previousRefreshToken
        else payload.refreshToken.getD "")
      payload.idToken payload.expiresIn
  | _ => .error

def bodyContains (body marker : String) : Bool := decide (marker.toList <:+: body.toList)

def applyRefreshedTokens (now : ℤ) (ticket : AuthenticationTicket) (accessToken refreshToken : String)
    (idToken : Option String) (expiresIn : ℤ) : AuthenticationTicket :=
  let expiresAt := toDateTimeOffset now + expiresIn * ticksPerSecond
  { ticket with tokens :=
    { accessToken := updateTokenValue ticket.tokens.accessToken accessToken
      refreshToken := updateTokenValue ticket.tokens.refreshToken refreshToken
      expiresAt := updateTokenValue ticket.tokens.expiresAt (some expiresAt)
      idToken :=
        if isNullOrEmpty idToken then ticket.tokens.idToken
        else updateTokenValue ticket.tokens.idToken (idToken.getD "") } }

/-- Refreshing rewrites token items only. -/
@[simp] theorem applyRefreshedTokens_sid (now : ℤ) (ticket : AuthenticationTicket) (a r : String)
    (i : Option String) (x : ℤ) : (applyRefreshedTokens now ticket a r i x).sid = ticket.sid := rfl

@[simp] theorem applyRefreshedTokens_expiresUtc (now : ℤ) (ticket : AuthenticationTicket)
    (a r : String) (i : Option String) (x : ℤ) :
    (applyRefreshedTokens now ticket a r i x).expiresUtc = ticket.expiresUtc := rfl

@[simp] theorem applyRefreshedTokens_refreshToken (now : ℤ) (ticket : AuthenticationTicket)
    (a r : String) (i : Option String) (x : ℤ) :
    (applyRefreshedTokens now ticket a r i x).tokens.refreshToken =
      ticket.tokens.refreshToken.map fun _ => r := rfl

/-- A successful parse carries Keycloak's tokens, and the sent one where it issued none. -/
theorem parseSuccess_eq_success {previous a r : String} {i : Option String} {x : ℤ}
    {body : Option (Option TokenResponsePayload)}
    (h : parseSuccess previous body = .success a r i x) :
    ∃ payload, body = some (some payload) ∧ payload.accessToken = some a ∧ a ≠ "" ∧
      payload.idToken = i ∧ payload.expiresIn = x ∧ 0 < x ∧
      r = if isNullOrEmpty payload.refreshToken then previous else payload.refreshToken.getD "" := by
  match body with
  | none => simp [parseSuccess] at h
  | some none => simp [parseSuccess] at h
  | some (some payload) =>
    refine ⟨payload, rfl, ?_⟩
    obtain ⟨access, refresh, id, expires⟩ := payload
    simp only [parseSuccess] at h
    split at h
    · cases h
    · rename_i hn
      obtain ⟨rfl, rfl, rfl, rfl⟩ := by simpa using h
      cases access with
      | none => simp [isNullOrEmpty] at hn
      | some access => simpa [isNullOrEmpty] using hn

theorem parseSuccess_ne_invalidGrant (previous : String)
    (body : Option (Option TokenResponsePayload)) :
    parseSuccess previous body ≠ .invalidGrant := by
  match body with
  | none | some none => simp [parseSuccess]
  | some (some payload) => simp only [parseSuccess]; split <;> simp

end Decisya.Bff
