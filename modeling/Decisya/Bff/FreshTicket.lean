import Decisya.Bff.RedisTicketStore
import Decisya.Concurrency.Alone

/-!
# What a refresh leaves for the next reader

A refresh writes the new tokens into the ticket it read and stores it; whoever reads the ticket
next decides by it whether to refresh again. The code runs alone here, so that it is read back
at the same instant.
-/

namespace Decisya.Bff

open Concurrency Redis

set_option autoImplicit false

/-- One call of the session code, with the clock standing still. -/
abbrev alone : System Unit Op Op.Res Empty World where
  exec _ := World.exec 0
  env e := e.elim

variable {key accessToken rotated : String} {idToken : Option String} {expiresIn : ℤ}
variable {ticket : AuthenticationTicket} {w w' : World}

/-- A ticket that is read has been stored under its key, and reading takes no time. -/
theorem retrieveAsync_reads (h : Ends alone (retrieveAsync key) w (.ok (some ticket)) w') :
    w.redis.get? (ticketKeyName key) = some (protect key ticket) ∧ w'.clock = w.clock := by
  obtain ⟨reply, w₁, hexec, hrest⟩ := Ends.of_call h
  rcases hexec with ⟨rfl, rfl⟩ | ⟨e, rfl, rfl⟩
  · cases hget : w.redis.get? (ticketKeyName key) with
    | none =>
      rw [hget] at hrest
      cases (Ends.of_ret hrest).1
    | some value =>
      rw [hget] at hrest
      obtain ⟨heq, rfl⟩ := Ends.of_ret hrest
      have hunprotect : unprotect key value = some ticket := (Except.ok.inj heq).symm
      refine ⟨?_, rfl⟩
      cases value with
      | lock v => cases hunprotect
      | ticket purpose stored =>
        rw [unprotect] at hunprotect
        split at hunprotect
        · rename_i hpurpose
          cases hunprotect
          rw [hpurpose]
          rfl
        · cases hunprotect
  · change Ends alone (if isTransientStoreFailure e then _ else _) _ _ _ at hrest
    split at hrest
    · cases (Ends.of_ret hrest).1
    · cases (Ends.of_raise hrest).1

/-- What is stored under the key can be read. -/
theorem reads_retrieveAsync (h : w.redis.get? (ticketKeyName key) = some (protect key ticket)) :
    ∃ w', Ends alone (retrieveAsync key) w (.ok (some ticket)) w' := by
  have hunprotect : unprotect key (protect key ticket) = some ticket := if_pos rfl
  refine ⟨w.log 0 (.fetched (ticketKeyName key) (w.redis.get? (ticketKeyName key))),
    Ends.call (.ok (w.redis.get? (ticketKeyName key))) (Or.inl ⟨rfl, rfl⟩) ?_⟩
  rw [h]
  change Ends alone (Prog.ret (unprotect key (protect key ticket))) _ _ _
  rw [hunprotect]
  exact Ends.ret _ _

/-- A successful update stores the ticket, and takes no time. -/
theorem tryUpdateTokensAsync_stores (h : Ends alone (tryUpdateTokensAsync key ticket) w (.ok true) w') :
    w'.redis.get? (ticketKeyName key) = some (protect key ticket) ∧ w'.clock = w.clock := by
  unfold tryUpdateTokensAsync computeExpiry at h
  cases hexpires : ticket.expiresUtc with
  | none =>
    rw [hexpires] at h
    cases (Ends.of_raise h).1
  | some expiresUtc =>
    rw [hexpires] at h
    obtain ⟨now, w₁, ⟨rfl, rfl⟩, hrest⟩ := Ends.of_call h
    obtain ⟨reply, w₂, hexec, hrest⟩ := Ends.of_call hrest
    rcases hexec with ⟨rfl, rfl⟩ | ⟨e, rfl, -⟩
    · obtain ⟨heq, rfl⟩ := Ends.of_ret hrest
      have hok := (Except.ok.inj heq).symm
      refine ⟨?_, rfl⟩
      unfold World.execute Db.execute updateTransaction at hok ⊢
      dsimp only at hok ⊢
      split at hok
      · rename_i hholds
        rw [if_pos hholds]
        apply Db.get?_apply_set
        split
        · assumption
        · decide
      · cases hok
    · cases (Ends.of_raise hrest).1

/-! ## Fresh for the next reader -/

/-- The stored ticket can be read, and whoever reads it now takes the new access token and
finds the refresh token that goes with it. -/
def RereadsFresh (key accessToken rotated : String) (w : World) : Prop :=
  (∃ stored w', Ends alone (retrieveAsync key) w (.ok (some stored)) w') ∧
    ∀ stored w', Ends alone (retrieveAsync key) w (.ok (some stored)) w' →
      isFresh w'.clock stored = some accessToken ∧ stored.tokens.refreshToken = some rotated

/-- The items a refresh has to find are there. -/
def HasAccessItems (ticket : AuthenticationTicket) : Prop :=
  ticket.tokens.accessToken ≠ none ∧ ticket.tokens.expiresAt ≠ none

/-- The update of a refresh that Keycloak answered with `body`. -/
structure Refreshed (key : String) (ticket : AuthenticationTicket)
    (body : Option (Option TokenResponsePayload)) (accessToken rotated : String)
    (w w' : World) : Prop where
  present : isNullOrEmpty ticket.tokens.refreshToken = false
  answered : ∃ idToken expiresIn, 30 < expiresIn ∧
    parseSuccess (ticket.tokens.refreshToken.getD "") body =
      .success accessToken rotated idToken expiresIn ∧
    Ends alone (tryUpdateTokensAsync key
      (applyRefreshedTokens w.clock ticket accessToken rotated idToken expiresIn)) w (.ok true) w'

theorem isFresh_applyRefreshedTokens (now : ℤ) (ticket : AuthenticationTicket) (rotated : String)
    (idToken : Option String) (ha : accessToken ≠ "") (hexpires : 30 < expiresIn) :
    isFresh now (applyRefreshedTokens now ticket accessToken rotated idToken expiresIn)
        = some accessToken ↔ HasAccessItems ticket := by
  have hlead : refreshLeadTime
      < toDateTimeOffset now + expiresIn * ticksPerSecond - toDateTimeOffset now := by
    unfold refreshLeadTime ticksPerSecond
    omega
  unfold isFresh applyRefreshedTokens HasAccessItems updateTokenValue
  cases ticket.tokens.accessToken with
  | none => simp
  | some access =>
    cases ticket.tokens.expiresAt with
    | none => simp
    | some expires =>
      dsimp only [Option.map_some]
      rw [if_pos ⟨ha, hlead⟩]
      simp

/-- A refresh makes the stored ticket fresh exactly when the ticket had an access token and an
expiry to overwrite: `UpdateTokenValue` adds nothing. -/
theorem refreshed_ticket_fresh_iff {body : Option (Option TokenResponsePayload)}
    (h : Refreshed key ticket body accessToken rotated w w') :
    RereadsFresh key accessToken rotated w' ↔ HasAccessItems ticket := by
  obtain ⟨idToken, expiresIn, hexpires, hparse, hupdate⟩ := h.answered
  obtain ⟨-, -, -, ha, -⟩ := parseSuccess_eq_success hparse
  obtain ⟨hstored, hclock⟩ := tryUpdateTokensAsync_stores hupdate
  have hfresh := isFresh_applyRefreshedTokens w.clock ticket rotated idToken ha hexpires
  constructor
  · intro hreads
    obtain ⟨w'', hread⟩ := reads_retrieveAsync hstored
    have htoken := (hreads.2 _ w'' hread).1
    rw [(retrieveAsync_reads hread).2, hclock] at htoken
    exact hfresh.mp htoken
  · intro hitems
    obtain ⟨w'', hread⟩ := reads_retrieveAsync hstored
    refine ⟨⟨_, w'', hread⟩, ?_⟩
    intro stored w₂ hread₂
    obtain ⟨hget, hclock₂⟩ := retrieveAsync_reads hread₂
    rw [hstored] at hget
    cases hget
    rw [hclock₂, hclock]
    refine ⟨hfresh.mpr hitems, ?_⟩
    rw [applyRefreshedTokens_refreshToken]
    cases hrefresh : ticket.tokens.refreshToken with
    | none =>
      have hpresent := h.present
      rw [hrefresh] at hpresent
      cases hpresent
    | some refresh => rfl

/-! ### Two tickets -/

/-- An update goes through where the key is there. -/
theorem updates_tryUpdateTokensAsync {expiresUtc : ℤ} (hexpires : ticket.expiresUtc = some expiresUtc)
    (hkey : (w.redis.find? (ticketKeyName key)).isSome = true) :
    ∃ w', Ends alone (tryUpdateTokensAsync key ticket) w (.ok true) w' := by
  unfold tryUpdateTokensAsync computeExpiry
  rw [hexpires]
  refine ⟨_, Ends.call (S := alone) w.clock ⟨rfl, rfl⟩
    (Ends.call (S := alone) (.ok true) (Or.inl ⟨?_, rfl⟩) (Ends.ret true _))⟩
  have hholds : (List.all [Condition.keyExists (ticketKeyName key)] w.redis.holds) = true := by
    rw [List.all_cons, List.all_nil, Bool.and_true]
    exact hkey
  unfold Db.execute updateTransaction
  dsimp only
  rw [if_pos hholds]

/-- A session at Keycloak's first answer, with or without an expiry beside its tokens. -/
def expiringTicket (expiresAt : Option (Option ℤ)) : AuthenticationTicket :=
  ⟨some "sid", some 1000, ⟨some "old", some "r1", none, expiresAt⟩⟩

def expiringWorld (ticket : AuthenticationTicket) : World where
  clock := 0
  redis := ⟨0, fun _ => some ⟨.str (protect "s" ticket), none⟩⟩
  keycloak := ⟨[], [], []⟩
  sessionKeys := []
  lockValues := []
  exchange _ := .idle
  awaiting _ := none
  history := []

theorem expiring_refreshed (expiresAt : Option (Option ℤ)) :
    ∃ w', Refreshed "s" (expiringTicket expiresAt) (some (some ⟨some "new", some "r2", none, 60⟩)) "new"
      "r2" (expiringWorld (expiringTicket expiresAt)) w' := by
  have hruns : ∃ w', Ends alone (tryUpdateTokensAsync "s"
      (applyRefreshedTokens 0 (expiringTicket expiresAt) "new" "r2" none 60))
      (expiringWorld (expiringTicket expiresAt)) (.ok true) w' := updates_tryUpdateTokensAsync rfl rfl
  obtain ⟨w', hupdate⟩ := hruns
  exact ⟨w', rfl, none, 60, by decide, rfl, hupdate⟩

theorem refreshed_ticket_fresh_of_items : ∃ w', RereadsFresh "s" "new" "r2" w' ∧
    Refreshed "s" (expiringTicket (some none)) (some (some ⟨some "new", some "r2", none, 60⟩)) "new"
      "r2" (expiringWorld (expiringTicket (some none))) w' := by
  obtain ⟨w', h⟩ := expiring_refreshed (some none)
  exact ⟨w', (refreshed_ticket_fresh_iff h).mpr ⟨nofun, nofun⟩, h⟩

/-- Without an `expires_at` to overwrite the ticket stays stale. -/
theorem refreshed_ticket_stays_stale :
    ¬ ∀ key ticket body accessToken rotated w w',
      Refreshed key ticket body accessToken rotated w w' →
        RereadsFresh key accessToken rotated w' := by
  intro hall
  obtain ⟨w', h⟩ := expiring_refreshed none
  have hreads := hall _ _ _ _ _ _ _ h
  obtain ⟨idToken, expiresIn, hexpires, hparse, hupdate⟩ := h.answered
  obtain ⟨hstored, hclock⟩ := tryUpdateTokensAsync_stores hupdate
  obtain ⟨w'', hread⟩ := reads_retrieveAsync hstored
  have htoken := (hreads.2 _ w'' hread).1
  have hitems := (isFresh_applyRefreshedTokens _ _ _ _ (by decide) hexpires).mp
    ((congrArg (fun now => isFresh now _) ((retrieveAsync_reads hread).2.trans hclock)).symm.trans
      htoken)
  exact hitems.2 rfl

end Decisya.Bff
