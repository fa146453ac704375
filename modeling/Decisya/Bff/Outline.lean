import Decisya.Bff.Calls

/-!
# A proof outline of `GetAsync`

Which assertions hold at the points of the access-token state machine depends on what
is being proved; how they follow one another does not. An `Outline` names them, `Valid`
says what each piece of code owes, and `triple_getAsync` walks the code once.
-/

namespace Decisya.Bff

set_option autoImplicit false

open Concurrency

/-- The assertions of a run of `GetAsync`. The first argument from `held` on is the lock
value; `read` names the ticket read under the lock, `sent` the refresh token posted. -/
structure Outline where
  out : World → Prop
  held : String → World → Prop
  read : String → AuthenticationTicket → World → Prop
  sent : String → AuthenticationTicket → String → World → Prop
  replied : String → AuthenticationTicket → String → HttpResponse → World → Prop
  ended : String → Except Exn AccessTokenResult → World → Prop
  post : Except Exn AccessTokenResult → World → Prop

/-- What the write-back's result makes of a refresh that gave `accessToken`. -/
def afterWrite (accessToken : String) : Except Exn Bool → Except Exn AccessTokenResult
  | .ok true => .ok (.token accessToken)
  | .ok false => .ok .sessionEnded
  | .error e => .error e

/-- What a read says: `B` of the ticket it found, `C` in any case. -/
theorem triple_retrieveAsync {P : Protocol ℕ World} {S : System ℕ Op Op.Res Ev World} {t : ℕ}
    {key : String} {A C : World → Prop} {B : AuthenticationTicket → World → Prop}
    (hA : P.Stable t A)
    (hop : ∀ w r w', P.inv w → A w → S.exec t (.stringGet (ticketKeyName key)) w r w' →
      P.Keeps t w w' ∧ C w' ∧ ∀ ticket, r = .ok (some (protect key ticket)) → B ticket w') :
    P.Triple S t A (retrieveAsync key) fun x w =>
      C w ∧ ∀ ticket, x = .ok (some ticket) → B ticket w := by
  refine Protocol.Triple.call (fun r w => C w ∧ ∀ ticket,
    r = .ok (some (protect key ticket)) → B ticket w) hA hop fun r => ?_
  match r with
  | .error e =>
    dsimp only [Prog.ret_bind]
    split
    · exact Protocol.Triple.ret fun w hw => ⟨hw.1, nofun⟩
    · exact Protocol.Triple.raise fun w hw => ⟨hw.1, nofun⟩
  | .ok none => exact Protocol.Triple.ret fun w hw => ⟨hw.1, nofun⟩
  | .ok (some value) =>
    refine Protocol.Triple.ret fun w hw => ⟨hw.1, fun ticket hticket => hw.2 ticket ?_⟩
    have hvalue : value = protect key ticket :=
      unprotect_eq_some.mp (Except.ok.inj hticket)
    rw [hvalue]

namespace Outline

/-- Reading the ticket: `none` ends the session, a failure ends the call. -/
def afterRead (none' : World → Prop) (some' : AuthenticationTicket → World → Prop)
    (failed : Exn → World → Prop) : Except Exn (Option AuthenticationTicket) → World → Prop
  | .ok none, w => none' w
  | .ok (some ticket), w => some' ticket w
  | .error e, w => failed e w

def ReadTriple (P : Protocol ℕ World) (S : System ℕ Op Op.Res Ev World) (t : ℕ)
    (A : World → Prop) (p : Code (Option AuthenticationTicket))
    (some' : AuthenticationTicket → World → Prop)
    (done : Except Exn AccessTokenResult → World → Prop) : Prop :=
  P.Triple S t A p (afterRead (done (.ok .sessionEnded)) some' fun e => done (.error e))

theorem ReadTriple.of_triple {P : Protocol ℕ World} {S : System ℕ Op Op.Res Ev World} {t : ℕ}
    {A : World → Prop} {p : Code (Option AuthenticationTicket)}
    {R : Except Exn (Option AuthenticationTicket) → World → Prop}
    {some' : AuthenticationTicket → World → Prop}
    {done : Except Exn AccessTokenResult → World → Prop} (h : P.Triple S t A p R)
    (hnone : ∀ w, R (.ok none) w → done (.ok .sessionEnded) w)
    (hsome : ∀ tk w, R (.ok (some tk)) w → some' tk w)
    (hfail : ∀ e w, R (.error e) w → done (.error e) w) : ReadTriple P S t A p some' done := by
  refine h.conseq (fun _ hw => hw) fun x w hw => ?_
  rcases x with e | (_ | tk)
  · exact hfail e w hw
  · exact hnone w hw
  · exact hsome tk w hw

/-- What each piece of `GetAsync` for `key` owes to the outline. -/
structure Valid (o : Outline) (P : Protocol ℕ World) (S : System ℕ Op Op.Res Ev World) (t : ℕ)
    (key : String) : Prop where
  within : S.Within system
  still : ∀ w, P.inv w → P.Keeps t w w
  stable_out : P.Stable t o.out
  stable_read : ∀ v tk, P.Stable t (o.read v tk)
  stable_sent : ∀ v tk rt, P.Stable t (o.sent v tk rt)
  stable_replied : ∀ v tk rt resp, P.Stable t (o.replied v tk rt resp)
  stop : ∀ w x, o.out w → x ≠ .ok .sessionEnded → o.post x w
  authenticate : ReadTriple P S t o.out (authenticateAsync key) (fun _ => o.out) o.post
  wait : ReadTriple P S t o.out (retrieveAsync key) (fun _ => o.out) o.post
  acquire : P.Triple S t o.out (tryAcquireAsync key) fun x w => match x with
    | .ok (.ok (some handle)) => handle.lockKey = lockKeyName key ∧ o.held handle.lockValue w
    | _ => o.out w
  fetch : ∀ v, ReadTriple P S t (o.held v) (retrieveAsync key) (o.read v) (o.ended v)
  read_stop : ∀ v tk w x, o.read v tk w → x ≠ .ok .sessionEnded → o.ended v x w
  read_none : ∀ v tk w, o.read v tk w → isNullOrEmpty tk.tokens.refreshToken = true →
    o.ended v (.ok .sessionEnded) w
  send : ∀ v tk w r w', isNullOrEmpty tk.tokens.refreshToken = false → P.inv w → o.read v tk w →
    S.exec t (.send (.refresh (tk.tokens.refreshToken.getD ""))) w r w' →
    P.Keeps t w w' ∧ o.sent v tk (tk.tokens.refreshToken.getD "") w'
  reply : ∀ v tk rt w r w', P.inv w → o.sent v tk rt w → S.exec t .response w r w' →
    P.Keeps t w w' ∧ match r with
      | .ok resp => o.replied v tk rt resp w'
      | .error _ => ∀ x, x ≠ .ok .sessionEnded → o.ended v x w'
  body : ∀ v tk rt resp w r w', P.inv w → o.replied v tk rt resp w → S.exec t .readBody w r w' →
    P.Keeps t w w' ∧ match r with
      | .ok () => o.replied v tk rt resp w'
      | .error e => o.ended v (.error e) w'
  reject : ∀ v tk rt resp w, (∀ body, resp = .ok body → parseSuccess rt body = .error) →
    o.replied v tk rt resp w → o.ended v (.ok .unavailable) w
  write : ∀ v tk rt body a r i x, parseSuccess rt body = .success a r i x →
    ∀ now n w res w', 0 < n → P.inv w → o.replied v tk rt (.ok body) w →
      S.exec t (.execute (updateTransaction key (applyRefreshedTokens now tk a r i x) n)) w res w' →
      P.Keeps t w w' ∧ o.ended v (afterWrite a res) w'
  unwritable : ∀ v tk rt body w, tk.expiresUtc = none → o.replied v tk rt (.ok body) w →
    o.ended v (.error .invalidOperation) w
  invalid : ∀ v tk rt body, bodyContains body invalidGrantMarker = true →
    P.Triple S t (o.replied v tk rt (.status 400 body)) (handleInvalidGrantAsync key rt) (o.ended v)
  release : ∀ v x, P.Triple S t (o.ended v x) (LockHandle.disposeAsync ⟨lockKeyName key, v⟩)
    (Protocol.finallyPost o.post x)

namespace Valid
variable {o : Outline} {P : Protocol ℕ World} {S : System ℕ Op Op.Res Ev World} {t : ℕ}
  {key : String}

/-- The operations that change nothing. -/
def Still : Op → Prop
  | .getCurrentInstant | .deadlineReached | .delay | .getConfiguration => True
  | _ => False

theorem still_exec {op : Op} {w w' : World} {r : op.Res} (ho : Still op)
    (hx : World.exec t op w r w') : w' = w := by
  cases op with
  | getCurrentInstant => exact hx.2
  | deadlineReached => exact hx
  | delay => exact hx.2
  | getConfiguration => exact hx
  | _ => exact ho.elim

theorem call_still (h : o.Valid P S t key) {A : World → Prop} (hA : P.Stable t A) (op : Op)
    (ho : Still op) {α : Type} {k : op.Res → Code α} {Q : Except Exn α → World → Prop}
    (hk : ∀ r, P.Triple S t A (k r) Q) : P.Triple S t A (.call op k) Q := by
  refine Protocol.Triple.call (fun _ => A) hA ?_ hk
  intro w r w' hi hw hx
  obtain rfl := still_exec ho (h.within.exec _ _ _ _ _ hx)
  exact ⟨h.still w' hi, hw⟩

/-- What the client's answer tells `RefreshUnderLockAsync`. -/
def afterRefresh (o : Outline) (v : String) (tk : AuthenticationTicket) (rt : String) :
    Except Exn TokenRefreshResult → World → Prop
  | .ok (.success a r i x), w =>
    ∃ body, parseSuccess rt body = .success a r i x ∧ o.replied v tk rt (.ok body) w
  | .ok .invalidGrant, w =>
    ∃ body, bodyContains body invalidGrantMarker = true ∧ o.replied v tk rt (.status 400 body) w
  | .ok .error, w => o.ended v (.ok .unavailable) w
  | .error e, w => o.ended v (.error e) w

theorem afterRefresh_parse (h : o.Valid P S t key) {v rt : String} {tk : AuthenticationTicket}
    {body : Option (Option TokenResponsePayload)} {w : World}
    (hw : o.replied v tk rt (.ok body) w) :
    afterRefresh o v tk rt (.ok (parseSuccess rt body)) w := by
  cases hp : parseSuccess rt body with
  | success a r i x => exact ⟨body, hp, hw⟩
  | invalidGrant => exact absurd hp (parseSuccess_ne_invalidGrant rt body)
  | error => exact h.reject v tk rt _ w (fun body' hb => by cases hb; exact hp) hw

theorem triple_refreshAsync (h : o.Valid P S t key) (v : String) (tk : AuthenticationTicket)
    (htk : isNullOrEmpty tk.tokens.refreshToken = false) :
    P.Triple S t (o.read v tk) (refreshAsync (tk.tokens.refreshToken.getD ""))
      (afterRefresh o v tk (tk.tokens.refreshToken.getD "")) := by
  generalize hrt : tk.tokens.refreshToken.getD "" = rt
  have hsend := h.send v tk
  rw [hrt] at hsend
  refine call_still h (h.stable_read v tk) .getConfiguration trivial fun r => ?_
  match r with
  | .error e =>
    dsimp only [Prog.ret_bind]
    split
    · exact Protocol.Triple.ret fun w hw => h.read_stop v tk w _ hw (by simp)
    · exact Protocol.Triple.raise fun w hw => h.read_stop v tk w _ hw (by simp)
  | .ok () =>
    refine Protocol.Triple.call (fun _ => o.sent v tk rt) (h.stable_read v tk)
      (fun w r w' hi hw hx => hsend w r w' htk hi hw hx) fun _ => ?_
    refine Protocol.Triple.call (fun r w => match r with
      | .ok resp => o.replied v tk rt resp w
      | .error _ => ∀ x, x ≠ .ok .sessionEnded → o.ended v x w)
      (h.stable_sent v tk rt) (fun w r w' => h.reply v tk rt w r w') fun r => ?_
    match r with
    | .error e =>
      dsimp only [Prog.ret_bind]
      split
      · exact Protocol.Triple.ret fun w hw => hw _ (by simp)
      · exact Protocol.Triple.raise fun w hw => hw _ (by simp)
    | .ok (.ok body) =>
      refine Protocol.Triple.call (fun r w => match r with
        | .ok () => o.replied v tk rt (.ok body) w
        | .error e => o.ended v (.error e) w)
        (h.stable_replied v tk rt _) (fun w r w' => h.body v tk rt _ w r w') fun r => ?_
      match r with
      | .error e => exact Protocol.Triple.raise fun _ hw => hw
      | .ok () => exact Protocol.Triple.ret fun _ hw => h.afterRefresh_parse hw
    | .ok (.status code body) =>
      have hreject : ∀ w, o.replied v tk rt (.status code body) w →
          o.ended v (.ok .unavailable) w :=
        fun w hw => h.reject v tk rt _ w (fun _ hb => by cases hb) hw
      dsimp only [Prog.ret_bind]
      split
      · rename_i hcode
        subst hcode
        refine Protocol.Triple.call (fun r w => match r with
          | .ok () => o.replied v tk rt (.status 400 body) w
          | .error e => o.ended v (.error e) w)
          (h.stable_replied v tk rt _) (fun w r w' => h.body v tk rt _ w r w') fun r => ?_
        match r with
        | .error e => exact Protocol.Triple.raise fun _ hw => hw
        | .ok () =>
          refine Protocol.Triple.ret fun w hw => ?_
          change afterRefresh o v tk rt (.ok (if _ then _ else _)) w
          split
          · exact ⟨body, ‹_›, hw⟩
          · exact hreject w hw
      · exact Protocol.Triple.ret hreject

theorem triple_tryUpdateTokensAsync (h : o.Valid P S t key) {A : World → Prop}
    {B : Except Exn Bool → World → Prop} (hA : P.Stable t A) (ticket : AuthenticationTicket)
    (hexec : ∀ n w res w', 0 < n → P.inv w → A w →
      S.exec t (.execute (updateTransaction key ticket n)) w res w' → P.Keeps t w w' ∧ B res w')
    (hnone : ∀ w, ticket.expiresUtc = none → A w → B (.error .invalidOperation) w) :
    P.Triple S t A (tryUpdateTokensAsync key ticket) B := by
  unfold tryUpdateTokensAsync computeExpiry
  cases hexpires : ticket.expiresUtc with
  | none => exact Protocol.Triple.raise fun w hw => hnone w hexpires hw
  | some expiresUtc =>
    refine h.call_still hA .getCurrentInstant trivial fun now => ?_
    have hpos : 0 < (if 0 < expiresUtc - toDateTimeOffset now then
        expiresUtc - toDateTimeOffset now else ticksPerSecond) := by
      dsimp only [ticksPerSecond]
      split <;> omega
    refine Protocol.Triple.call (fun res w => B res w) hA
      (fun w res w' hi hw hx => hexec _ w res w' hpos hi hw hx) fun res => ?_
    exact Protocol.Triple.ofExcept fun _ hw => hw

theorem triple_applyRefreshResult (h : o.Valid P S t key) (v : String) (tk : AuthenticationTicket)
    (rt : String) (result : TokenRefreshResult) :
    P.Triple S t (afterRefresh o v tk rt (.ok result)) (applyRefreshResult key tk rt result)
      (o.ended v) := by
  cases result with
  | success a r i x =>
    refine Protocol.Triple.of_exists fun body => ?_
    refine Protocol.Triple.of_pure (fun _ hw => hw.1) fun hp => ?_
    refine Protocol.Triple.conseq ?_ (fun _ hw => hw.2) fun _ _ hw => hw
    refine h.call_still (h.stable_replied v tk rt _) .getCurrentInstant trivial fun now => ?_
    refine Protocol.Triple.bind (fun res w => o.ended v (afterWrite a res) w)
      (h.triple_tryUpdateTokensAsync (h.stable_replied v tk rt _) _ (h.write v tk rt body a r i x hp now)
        fun w hnone hw => h.unwritable v tk rt body w hnone hw) ?_ fun _ _ hw => hw
    intro updated
    refine Protocol.Triple.ret fun w hw => ?_
    cases updated <;> exact hw
  | invalidGrant =>
    refine Protocol.Triple.of_exists fun body => ?_
    refine Protocol.Triple.of_pure (fun _ hw => hw.1) fun hb => ?_
    exact (h.invalid v tk rt body hb).conseq (fun _ hw => hw.2) fun _ _ hw => hw
  | error => exact Protocol.Triple.ret fun _ hw => hw

theorem triple_refreshUnderLockAsync (h : o.Valid P S t key) (v : String) :
    P.Triple S t (o.held v) (refreshUnderLockAsync key) (o.ended v) := by
  refine Protocol.Triple.bind _ (h.fetch v) ?_ fun _ _ hw => hw
  intro ticket
  match ticket with
  | none => exact Protocol.Triple.ret fun _ hw => hw
  | some tk =>
    refine call_still h (h.stable_read v tk) .getCurrentInstant trivial fun now => ?_
    dsimp only [Prog.ret_bind]
    split
    · exact Protocol.Triple.ret fun w hw => h.read_stop v tk w _ hw (by simp)
    · split
      · rename_i hnull
        exact Protocol.Triple.ret fun w hw => h.read_none v tk w hw hnull
      · rename_i hnull
        refine Protocol.Triple.bind _ (h.triple_refreshAsync v tk (by simpa using hnull)) ?_
          fun _ _ hw => hw
        exact fun result => h.triple_applyRefreshResult v tk _ result

theorem triple_acquireAndRefresh (h : o.Valid P S t key) (rounds : ℕ) :
    P.Triple S t o.out (acquireAndRefresh key rounds) o.post := by
  induction rounds with
  | zero => exact Protocol.Triple.ret fun w hw => h.stop w _ hw (by simp)
  | succ rounds ih =>
    refine call_still h h.stable_out .deadlineReached trivial fun reached => ?_
    dsimp only [Prog.ret_bind]
    split
    · exact Protocol.Triple.ret fun w hw => h.stop w _ hw (by simp)
    · refine Protocol.Triple.bind _ h.acquire ?_ fun e w hw => h.stop w _ hw (by simp)
      intro handle
      match handle with
      | .error e =>
        dsimp only
        split
        · exact Protocol.Triple.ret fun w hw => h.stop w _ hw (by simp)
        · exact Protocol.Triple.raise fun w hw => h.stop w _ hw (by simp)
      | .ok (some ⟨lockKey, v⟩) =>
        refine Protocol.Triple.of_pure (fun _ hw => hw.1) fun hkey => ?_
        obtain rfl : lockKey = lockKeyName key := hkey
        refine Protocol.Triple.tryFinally (o.ended v) ?_ (h.release v)
        exact (h.triple_refreshUnderLockAsync v).conseq (fun _ hw => hw.2) fun _ _ hw => hw
      | .ok none =>
        refine call_still h h.stable_out .delay trivial fun r => ?_
        match r with
        | .error e =>
          dsimp only [Prog.ret_bind]
          split
          · exact Protocol.Triple.ret fun w hw => h.stop w _ hw (by simp)
          · exact Protocol.Triple.raise fun w hw => h.stop w _ hw (by simp)
        | .ok () =>
          dsimp only [Prog.ret_bind]
          refine Protocol.Triple.bind _ h.wait ?_ fun _ _ hw => hw
          intro ticket
          match ticket with
          | none => exact Protocol.Triple.ret fun _ hw => hw
          | some tk =>
            refine call_still h h.stable_out .getCurrentInstant trivial fun now => ?_
            dsimp only [Prog.ret_bind]
            split
            · exact Protocol.Triple.ret fun w hw => h.stop w _ hw (by simp)
            · exact ih

/-- The outline of a whole run of `GetAsync`. -/
theorem triple_getAsync (h : o.Valid P S t key) (rounds : ℕ) :
    P.Triple S t o.out (getAsync key rounds) o.post := by
  refine Protocol.Triple.bind _ h.authenticate ?_ fun _ _ hw => hw
  intro ticket
  match ticket with
  | none => exact Protocol.Triple.ret fun _ hw => hw
  | some tk =>
    refine call_still h h.stable_out .getCurrentInstant trivial fun now => ?_
    dsimp only [Prog.ret_bind]
    split
    · exact Protocol.Triple.ret fun w hw => h.stop w _ hw (by simp)
    · exact h.triple_acquireAndRefresh rounds

/-- The middleware signs the caller out when the session has ended. -/
theorem triple_invokeAsync (h : o.Valid P S t key) (rounds : ℕ)
    (hsign : P.Triple S t (o.post (.ok .sessionEnded)) (signOutAsync key)
      (Protocol.finallyPost o.post (.ok .sessionEnded))) :
    P.Triple S t o.out (invokeAsync key rounds) o.post := by
  refine Protocol.Triple.bind _ (h.triple_getAsync rounds) ?_ fun _ _ hw => hw
  intro result
  split
  · rename_i hended
    subst hended
    exact hsign.bind _ (fun _ => Protocol.Triple.ret fun _ hw => hw) fun _ _ hw => hw
  · exact Protocol.Triple.ret fun _ hw => hw

end Valid

/-- The outcome of a call, where it is one of `GetAsync`. -/
def accessPost (post : Except Exn AccessTokenResult → World → Prop) :
    Except Exn CallResult → World → Prop
  | .ok (.access result), w => post (.ok result) w
  | .ok _, _ => True
  | .error e, w => post (.error e) w

/-- `GetAsync` as the calls make it: alone or behind the middleware. -/
inductive Gets (key : String) : Call → Prop where
  | get (rounds : ℕ) : Gets key (.get key rounds)
  | invoke (rounds : ℕ) : Gets key (.invoke key rounds)

theorem Valid.triple_call_of {o : Outline} {P : Protocol ℕ World}
    {S : System ℕ Op Op.Res Ev World} {t : ℕ} {key : String} (h : o.Valid P S t key)
    (hsign : P.Triple S t (o.post (.ok .sessionEnded)) (signOutAsync key)
      (Protocol.finallyPost o.post (.ok .sessionEnded))) {call : Call} (hcall : Gets key call)
    {Q : Except Exn CallResult → World → Prop}
    (hok : ∀ result w, o.post (.ok result) w → Q (.ok (.access result)) w)
    (herror : ∀ e w, o.post (.error e) w → Q (.error e) w) : P.Triple S t o.out call.code Q := by
  have hmap : ∀ {p : Code AccessTokenResult}, P.Triple S t o.out p o.post →
      P.Triple S t o.out (CallResult.access <$> p) Q := fun hp =>
    hp.bind _ (fun result => Protocol.Triple.ret fun w hw => hok result w hw) herror
  cases hcall with
  | get rounds => exact hmap (h.triple_getAsync rounds)
  | invoke rounds => exact hmap (h.triple_invokeAsync rounds hsign)

theorem Valid.triple_call {o : Outline} {P : Protocol ℕ World}
    {S : System ℕ Op Op.Res Ev World} {t : ℕ} {key : String} (h : o.Valid P S t key)
    (hsign : P.Triple S t (o.post (.ok .sessionEnded)) (signOutAsync key)
      (Protocol.finallyPost o.post (.ok .sessionEnded))) {call : Call} (hcall : Gets key call) :
    P.Triple S t o.out call.code (accessPost o.post) :=
  h.triple_call_of hsign hcall (fun _ _ hw => hw) fun _ _ hw => hw

end Outline

end Decisya.Bff
