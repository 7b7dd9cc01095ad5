/-
  `POST /session/token` (`http/user_token.rs`): a session traded for a user
  token.

  * `mint` reads the grants, the rows and the tenant one after the other, each
    as the admin writes have left the store by then, or fails to;
  * `mint_ok`: what a token that is minted says;
  * `user_token_within_grants`: a grant that is live when it is read, or the
    default for a user the table has never held, and an expiry within the
    session.
-/
import SessionBroker.UserGrants
import SessionBroker.Cookies
import SessionBroker.Usable
import SessionBroker.Verifiers

namespace SessionBroker

open Latest

/-! ## Errors -/

/-- `ErrorCode`, as far as this route and the handoff answer with it. -/
inductive ErrorCode where
  | invalidSession
  | sessionStale
  | sessionExpired
  | upstreamRevoked
  | csrfRejected
  | badRequest
  | notGranted
  | badAudience
  | unavailable
deriving DecidableEq, Repr

/-- The code in the body, in snake case. -/
def ErrorCode.name : ErrorCode → String
  | invalidSession => "invalid_session"
  | sessionStale => "session_stale"
  | sessionExpired => "session_expired"
  | upstreamRevoked => "upstream_revoked"
  | csrfRejected => "csrf_rejected"
  | badRequest => "bad_request"
  | notGranted => "not_granted"
  | badAudience => "bad_audience"
  | unavailable => "unavailable"

structure ApiError where
  error : ErrorCode
  detail : String
  loginUrl : Option String := none
deriving DecidableEq, Repr

structure HttpConfig where
  origin : String
  secure : Bool
  loginPath : String
deriving DecidableEq, Repr

/-- `HttpConfig::login_url`, with nowhere to return to. -/
def HttpConfig.loginUrl (http : HttpConfig) : String := http.origin ++ http.loginPath

/-- `require_same_origin`, a direct navigation not allowed: over the first value
    of each header. -/
def requireSameOrigin (secFetchSite origin : Option Bytes) (expected : String) :
    Except ApiError Unit :=
  match secFetchSite.bind headerText with
  | some site =>
    if site = "same-origin" then .ok ()
    else .error ⟨.csrfRejected, s!"cross-origin request rejected (sec-fetch-site: {site})", none⟩
  | none =>
    match origin.bind headerText with
    | some origin =>
      if origin = expected then .ok ()
      else .error ⟨.csrfRejected, s!"origin '{origin}' is not '{expected}'", none⟩
    | none => .error ⟨.csrfRejected, "request carries neither Sec-Fetch-Site nor Origin", none⟩

/-- `unauthenticated`, with nowhere to return to. -/
def unauthenticated (http : HttpConfig) : ApiError :=
  ⟨.invalidSession, "no session cookie presented", some http.loginUrl⟩

/-- The reason as `Debug` writes it. -/
def ExpiredReason.debug : ExpiredReason → String
  | idle => "Idle"
  | absolute => "Absolute"
  | loggedOut => "LoggedOut"
  | upstreamRevoked => "UpstreamRevoked"

/-- `expired_error`. -/
def expiredError (reason : ExpiredReason) (http : HttpConfig) : ApiError where
  error := if reason = .upstreamRevoked then .upstreamRevoked else .sessionExpired
  detail := s!"session expired ({reason.debug})"
  loginUrl := some http.loginUrl

/-- `denial`, with nowhere to return to. -/
def denial (resolution : Resolution) (http : HttpConfig) : ApiError :=
  match resolution with
  | .hardExpired _ reason => expiredError reason http
  | .retired _ genNo =>
    ⟨.invalidSession, s!"generation {genNo} is past its grace window", some http.loginUrl⟩
  | _ => unauthenticated http

namespace ApiError

def unavailable : ApiError :=
  ⟨.unavailable, "the token could not be issued right now; retry shortly", none⟩

def notGranted : ApiError := ⟨.notGranted, "this user has no grant for that tenant", none⟩

end ApiError

/-! ## The mint -/

/-- The `IssuerConfig` of both token routes. -/
structure IssuerSettings where
  issuer : String
  audiences : List String
  times : IssuerTimes
  defaultUserTenant : Option String
  defaultUserRoles : List String
deriving DecidableEq, Repr

/-- The claims of a user token. -/
structure UserClaims where
  iss : String
  sub : String
  sid : String
  aud : String
  exp : ℤ
  iat : ℤ
  jti : String
  kind : String
  tenant : String
  roles : List String
  indexes : List String
deriving DecidableEq, Repr

structure UserGranted where
  accessToken : String
  tokenType : String
  expiresIn : ℕ
  tenant : String
  roles : List String
  indexes : List String
deriving DecidableEq, Repr

/-- The store at each of the three reads, absent where the read fails. -/
structure GrantReads where
  grants : Option Db
  rows : Option Db
  tenant : Option Db

/-- `UserGrants`. -/
structure UserGrants where
  live : List UserGrantRow
  anyRow : Bool

/-- `Issuer::user_grants`: the rows are read where no grant is live. -/
def userGrants (reads : GrantReads) (sub : String) : Option UserGrants :=
  reads.grants.bind fun db =>
    let live := db.findLiveUserGrants sub
    if live = [] then
      reads.rows.map fun db => ⟨live, !(db.listUserGrants none (some sub)).isEmpty⟩
    else some ⟨live, true⟩

/-- The grant that the request means. -/
def chosenGrant (live : List UserGrantRow) (asked : Option String) :
    Except ApiError (Option UserGrantRow) :=
  match asked with
  | some asked => .ok (live.find? (·.tenantId = asked))
  | none =>
    match live with
    | [only] => .ok (some only)
    | [] => .ok none
    | _ => .error
      ⟨.badRequest, "this user holds several tenants: name one in \"tenant\"", none⟩

/-- What the user may have: the middle of `mint`. -/
def mayHave (settings : IssuerSettings) (reads : GrantReads) (sub : String)
    (asked : Option String) : Except ApiError (String × List String × List String) :=
  match userGrants reads sub with
  | none => .error .unavailable
  | some grants =>
    if grants.live = [] ∧ grants.anyRow = false then
      -- never granted anything: the install's default, if it has one
      match settings.defaultUserTenant with
      | some default_ =>
        if asked.all (· = default_) then
          match reads.tenant.map (·.tenantIsDisabled default_) with
          | none => .error .unavailable
          | some true => .error .notGranted
          | some false => .ok (default_, settings.defaultUserRoles, ["*"])
        else .error .notGranted
      | none => .error .notGranted
    else
      match chosenGrant grants.live asked with
      | .error err => .error err
      | .ok none => .error .notGranted
      | .ok (some grant) => .ok (grant.tenantId, grant.roles, grant.indexes)

/-- SHA-256 of the cookie, and the signer with the key id it signed under. -/
structure UserTokenEnv where
  hash : String → TokenHash
  signWithKid : UserClaims → Option (String × String)

/-- The seconds to the session's idle expiry, one at least.  The subtraction
    wraps, as it does in a release build. -/
def remainingSecs (refreshUntil : ℤ) (now : Timestamp) : ℕ :=
  (max (Int.bmod (refreshUntil - now.secs) (2 ^ 64)) 1).toNat

/-- `mint`, for a session already proved. -/
def mint (env : UserTokenEnv) (settings : IssuerSettings) (reads : GrantReads) (sm : SessionMeta)
    (audience : String) (asked : Option String) (now : Timestamp) (jti : String) :
    Except ApiError UserGranted :=
  if audience ∉ settings.audiences then
    .error ⟨.badAudience, "this issuer does not issue tokens for that audience", none⟩
  else
    match mayHave settings reads sm.sub asked with
    | .error err => .error err
    | .ok (tenant, roles, indexes) =>
      let ttl := min settings.times.userTtlSecs (remainingSecs sm.refreshUntil now)
      let claims : UserClaims :=
        { iss := settings.issuer
          sub := sm.sub
          sid := sm.sid
          aud := audience
          exp := (now.plusSecs ttl).secs
          iat := now.secs
          jti
          kind := "user"
          tenant
          roles
          indexes }
      match env.signWithKid claims with
      | some (_, token) => .ok ⟨token, "Bearer", ttl, tenant, roles, indexes⟩
      | none => .error .unavailable

/-! ## The route -/

/-- One request: the first value of two headers, the `Cookie` headers, what the
    body parses to, and the clock at the session check and at the mint. -/
structure UserTokenRequest where
  secFetchSite : Option Bytes
  origin : Option Bytes
  cookies : List Bytes
  body : Option (String × Option String)
  checkAt : Timestamp
  mintAt : Timestamp
  jti : String

/-- `issue_inner`. -/
def issueUserToken (env : UserTokenEnv) (http : HttpConfig) (settings : IssuerSettings)
    (sessions : SessionMap) (reads : GrantReads) (req : UserTokenRequest) :
    Except ApiError UserGranted :=
  match requireSameOrigin req.secFetchSite req.origin http.origin with
  | .error err => .error err
  | .ok _ =>
    match cookie req.cookies (sessionCookieName http.secure) with
    | none => .error (unauthenticated http)
    | some value =>
      match sessions.resolve (env.hash value) req.checkAt with
      | .active .. =>
        match sessions.metaFor (env.hash value) with
        | none => .error (unauthenticated http)
        | some sm =>
          match req.body with
          | none => .error ⟨.badRequest,
            "the body must be JSON: \x7b\"audience\": \"...\", \"tenant\": \"...\"\x7d", none⟩
          | some (audience, asked) =>
            mint env settings reads sm audience asked req.mintAt req.jti
      | .staleRefreshable .. => .error ⟨.sessionStale,
        "this session generation has aged out: refresh, then retry", none⟩
      | other => .error (denial other http)

/-! ## What a token says -/

/-- An `i64` of seconds. -/
def Timestamp.I64 (t : Timestamp) : Prop := -2 ^ 63 ≤ t.secs ∧ t.secs < 2 ^ 63

section
variable {env : UserTokenEnv} {http : HttpConfig} {settings : IssuerSettings} {reads : GrantReads}
  {sm : SessionMeta} {audience : String} {asked : Option String} {now : Timestamp} {jti : String}
  {granted : UserGranted} {sub tenant : String} {roles indexes : List String}

theorem chosenGrant_mem {live : List UserGrantRow} {g : UserGrantRow}
    (h : chosenGrant live asked = .ok (some g)) : g ∈ live := by
  unfold chosenGrant at h
  cases asked with
  | some asked => exact List.mem_of_find?_eq_some (Except.ok.inj h)
  | none =>
    match live, h with
    | [only], h =>
      cases h
      exact List.mem_singleton_self _

theorem userGrants_some {grants : UserGrants} (h : userGrants reads sub = some grants) :
    ∃ db, reads.grants = some db ∧ grants.live = db.findLiveUserGrants sub ∧
      (grants.anyRow = false →
        ∃ rows, reads.rows = some rows ∧ rows.listUserGrants none (some sub) = []) := by
  obtain ⟨db, hdb, h⟩ := Option.bind_eq_some_iff.1 h
  dsimp only at h
  split_ifs at h
  · obtain ⟨rows, hrows, rfl⟩ := Option.map_eq_some_iff.1 h
    exact ⟨db, hdb, rfl, fun hany => ⟨rows, hrows, by simpa using hany⟩⟩
  · cases h
    exact ⟨db, hdb, rfl, fun hany => (Bool.false_ne_true hany.symm).elim⟩

/-- The default is for a user of whom both lists came back empty. -/
theorem mayHave_ok (h : mayHave settings reads sub asked = .ok (tenant, roles, indexes)) :
    (∃ db, reads.grants = some db ∧ ∃ g ∈ db.findLiveUserGrants sub,
        g.tenantId = tenant ∧ g.roles = roles ∧ g.indexes = indexes) ∨
      (settings.defaultUserTenant = some tenant ∧ roles = settings.defaultUserRoles ∧
        indexes = ["*"] ∧ (∃ db, reads.rows = some db ∧ db.listUserGrants none (some sub) = []) ∧
        ∃ db, reads.tenant = some db ∧ db.tenantIsDisabled tenant = false) := by
  unfold mayHave at h
  cases hu : userGrants reads sub with
  | none =>
    rw [hu] at h
    cases h
  | some grants =>
    rw [hu] at h
    obtain ⟨db, hdb, hlive, hrows⟩ := userGrants_some hu
    dsimp only at h
    split_ifs at h with hnever
    · cases hd : settings.defaultUserTenant with
      | none =>
        rw [hd] at h
        cases h
      | some default_ =>
        rw [hd] at h
        dsimp only at h
        split_ifs at h
        cases ht : reads.tenant with
        | none =>
          rw [ht] at h
          cases h
        | some db' =>
          rw [ht] at h
          cases hdis : db'.tenantIsDisabled default_ with
          | true =>
            rw [Option.map_some, hdis] at h
            cases h
          | false =>
            rw [Option.map_some, hdis] at h
            cases h
            exact Or.inr ⟨rfl, rfl, rfl, hrows hnever.2, db', rfl, hdis⟩
    · cases hc : chosenGrant grants.live asked with
      | error err =>
        rw [hc] at h
        cases h
      | ok chosen =>
        rw [hc] at h
        cases chosen with
        | none => cases h
        | some g =>
          have hmay := Except.ok.inj h
          simp only [Prod.mk.injEq] at hmay
          exact Or.inl ⟨db, hdb, g, hlive ▸ chosenGrant_mem hc, hmay⟩

/-- **A token that is minted** carries what the user may have. -/
theorem mint_ok (h : mint env settings reads sm audience asked now jti = .ok granted) :
    audience ∈ settings.audiences ∧
      mayHave settings reads sm.sub asked = .ok (granted.tenant, granted.roles, granted.indexes) ∧
      granted.expiresIn = min settings.times.userTtlSecs (remainingSecs sm.refreshUntil now) ∧
      ∃ kid, env.signWithKid
        { iss := settings.issuer
          sub := sm.sub
          sid := sm.sid
          aud := audience
          exp := (now.plusSecs granted.expiresIn).secs
          iat := now.secs
          jti
          kind := "user"
          tenant := granted.tenant
          roles := granted.roles
          indexes := granted.indexes } = some (kid, granted.accessToken) := by
  unfold mint at h
  split_ifs at h with haud
  cases hm : mayHave settings reads sm.sub asked with
  | error err =>
    rw [hm] at h
    cases h
  | ok may =>
    obtain ⟨tenant, roles, indexes⟩ := may
    rw [hm] at h
    dsimp only at h
    split at h
    · rename_i kid token hsign
      cases h
      exact ⟨haud, rfl, rfl, kid, hsign⟩
    · cases h

/-- Before the idle expiry a second is left, and no more than is left. -/
theorem remainingSecs_bounds {refreshUntil : ℤ} (hnow : now.I64) (huntil : refreshUntil < 2 ^ 63)
    (h : now.secs < refreshUntil) : 1 ≤ remainingSecs refreshUntil now ∧
      (remainingSecs refreshUntil now : ℤ) ≤ refreshUntil - now.secs := by
  obtain ⟨hlow, -⟩ := hnow
  have hmod : (refreshUntil - now.secs) % (2 ^ 64 : ℕ) = refreshUntil - now.secs :=
    Int.emod_eq_of_lt (by omega) (by omega)
  unfold remainingSecs
  rw [Int.bmod_def, hmod]
  split_ifs <;> omega

theorem plusSecs_within {refreshUntil : ℤ} {ttl : ℕ} (hnow : now.I64) (huntil : refreshUntil < 2 ^ 63)
    (hsmall : ttl < 2 ^ 63) (h : (ttl : ℤ) ≤ refreshUntil - now.secs) :
    (now.plusSecs ttl).secs = now.secs + ttl := by
  obtain ⟨hlow, -⟩ := hnow
  simp only [Timestamp.plusSecs, asI64_of_lt hsmall]
  omega

/-- The reads after admin writes, some more of them from one read to the next. -/
structure GrantReads.After (reads : GrantReads) (ring : KeyRing) (made : Timestamp)
    (w₁ w₂ w₃ : List AdminWrite) : Prop where
  grants : ∀ db ∈ reads.grants, db = (directory ring made w₁).db
  rows : ∀ db ∈ reads.rows, db = (directory ring made (w₁ ++ w₂)).db
  tenant : ∀ db ∈ reads.tenant, db = (directory ring made (w₁ ++ w₂ ++ w₃)).db

/-- A session that was checked is before its idle expiry. -/
theorem active_before_idle {sessions : SessionMap} {hash : TokenHash} (hm : sessions.metaFor hash = some sm)
    (ha : (sessions.resolve hash now).authenticates = true) :
    ∃ sid e, sessions.sessions sid = some e ∧ sm.refreshUntil = e.idleExp.secs ∧
      now.secs < sm.refreshUntil := by
  obtain ⟨sid, hi, hsm⟩ := Option.bind_eq_some_iff.1 hm
  obtain ⟨e, he, rfl⟩ := Option.map_eq_some_iff.1 hsm
  refine ⟨sid, e, he, rfl, ?_⟩
  simp only [SessionMap.resolve, hi, he] at ha
  have hopen : e.sessionExpiry now sessions.policy = none := by
    cases hx : e.sessionExpiry now sessions.policy with
    | none => rfl
    | some reason =>
      rw [SessionEntry.classify, hx] at ha
      cases ha
  exact (SessionEntry.sessionExpiry_eq_none.1 hopen).2.2.1

/-- **What the mint hands out**: a grant that is live when it is read, or the
    default for a user the table has never held. -/
theorem mayHave_within {ring : KeyRing} {made : Timestamp} {w₁ w₂ w₃ : List AdminWrite}
    (hreads : reads.After ring made w₁ w₂ w₃)
    (h : mayHave settings reads sub asked = .ok (tenant, roles, indexes)) :
    (directory ring made w₁).db.Grants sub tenant roles indexes ∨
      settings.defaultUserTenant = some tenant ∧ roles = settings.defaultUserRoles ∧
        indexes = ["*"] ∧ NeverHeld ring made (w₁ ++ w₂) sub ∧
        ¬(directory ring made (w₁ ++ w₂ ++ w₃)).db.tenantIsDisabled tenant = true := by
  rcases mayHave_ok h with ⟨db, hdb, g, hg, rfl, rfl, rfl⟩ |
      ⟨hdef, hroles, hall, ⟨rows, hrows, hnone⟩, db, hdb, hon⟩
  · obtain rfl := hreads.grants db hdb
    exact Or.inl ((Directory.kept_run ring made w₁).integrity.mem_findLiveUserGrants hg).2
  · obtain rfl := hreads.rows rows hrows
    obtain rfl := hreads.tenant db hdb
    refine Or.inr ⟨hdef, hroles, hall, neverHeld_iff.2 fun g hg hs => ?_, Bool.eq_false_iff.1 hon⟩
    have hmem := Db.mem_listUserGrants.2 ⟨hg, hs⟩
    rw [hnone] at hmem
    cases hmem

/-- A request that is answered with a token passed the session check. -/
theorem issueUserToken_ok {sessions : SessionMap} {req : UserTokenRequest}
    (h : issueUserToken env http settings sessions reads req = .ok granted) :
    ∃ value sm audience asked, cookie req.cookies (sessionCookieName http.secure) = some value ∧
      (sessions.resolve (env.hash value) req.checkAt).authenticates = true ∧
      sessions.metaFor (env.hash value) = some sm ∧
      mint env settings reads sm audience asked req.mintAt req.jti = .ok granted := by
  unfold issueUserToken at h
  cases ho : requireSameOrigin req.secFetchSite req.origin http.origin with
  | error err =>
    rw [ho] at h
    cases h
  | ok _ =>
    rw [ho] at h
    cases hc : cookie req.cookies (sessionCookieName http.secure) with
    | none =>
      rw [hc] at h
      cases h
    | some value =>
      rw [hc] at h
      dsimp only at h
      cases hr : sessions.resolve (env.hash value) req.checkAt with
      | active sid genNo newest =>
        rw [hr] at h
        dsimp only at h
        cases hm : sessions.metaFor (env.hash value) with
        | none =>
          rw [hm] at h
          cases h
        | some sm =>
          rw [hm] at h
          cases hb : req.body with
          | none =>
            rw [hb] at h
            cases h
          | some body =>
            obtain ⟨audience, asked⟩ := body
            rw [hb] at h
            exact ⟨value, sm, audience, asked, rfl, by rw [hr]; rfl, hm, h⟩
      | _ =>
        rw [hr] at h
        cases h

/-- The expiry of a token minted before the idle expiry. -/
theorem expiry_within (hset : settings.times.Accepted) (hnow : now.I64)
    (huntil : sm.refreshUntil < 2 ^ 63) (hactive : now.secs < sm.refreshUntil) {ttl : ℕ}
    (httl : ttl = min settings.times.userTtlSecs (remainingSecs sm.refreshUntil now)) :
    now.secs < (now.plusSecs ttl).secs ∧
      (now.plusSecs ttl).secs ≤ now.secs + settings.times.userTtlSecs ∧
      (now.plusSecs ttl).secs ≤ sm.refreshUntil := by
  obtain ⟨hmax, -, huser, -⟩ := IssuerTimes.accepted_iff.1 hset
  obtain ⟨hleft, hcap⟩ := remainingSecs_bounds hnow huntil hactive
  rw [plusSecs_within hnow huntil (by omega) (by omega)]
  omega

end

/-- **A user token never exceeds the user's grants.** -/
theorem user_token_within_grants (ring : KeyRing) (made : Timestamp) (w₁ w₂ w₃ : List AdminWrite)
    (env : UserTokenEnv) (http : HttpConfig) (settings : IssuerSettings)
    (hset : settings.times.Accepted) (sessions : SessionMap)
    (hidle : ∀ sid e, sessions.sessions sid = some e → e.idleExp.I64) (reads : GrantReads)
    (hreads : reads.After ring made w₁ w₂ w₃) (req : UserTokenRequest) (hnow : req.mintAt.I64)
    (granted : UserGranted)
    (h : issueUserToken env http settings sessions reads req = .ok granted) :
    ∃ value sm claims kid, cookie req.cookies (sessionCookieName http.secure) = some value ∧
      (sessions.resolve (env.hash value) req.checkAt).authenticates = true ∧
      sessions.metaFor (env.hash value) = some sm ∧
      env.signWithKid claims = some (kid, granted.accessToken) ∧
      claims.sub = sm.sub ∧ claims.sid = sm.sid ∧ claims.aud ∈ settings.audiences ∧
      granted.tenant = claims.tenant ∧ granted.roles = claims.roles ∧
      granted.indexes = claims.indexes ∧
      ((directory ring made w₁).db.Grants sm.sub claims.tenant claims.roles claims.indexes ∨
        settings.defaultUserTenant = some claims.tenant ∧
          claims.roles = settings.defaultUserRoles ∧ claims.indexes = ["*"] ∧
          NeverHeld ring made (w₁ ++ w₂) sm.sub ∧
          ¬(directory ring made (w₁ ++ w₂ ++ w₃)).db.tenantIsDisabled claims.tenant = true) ∧
      (req.mintAt = req.checkAt → req.mintAt.secs < claims.exp ∧
        claims.exp ≤ req.mintAt.secs + settings.times.userTtlSecs ∧
        claims.exp ≤ sm.refreshUntil) := by
  obtain ⟨value, sm, audience, asked, hcookie, hactive, hm, hmint⟩ := issueUserToken_ok h
  obtain ⟨haud, hmay, httl, kid, hsign⟩ := mint_ok hmint
  refine ⟨value, sm, _, kid, hcookie, hactive, hm, hsign, rfl, rfl, haud, rfl, rfl, rfl,
    mayHave_within hreads hmay, fun hsame => ?_⟩
  obtain ⟨sid, e, he, huntil, hbefore⟩ := active_before_idle hm hactive
  have hsmall : sm.refreshUntil < 2 ^ 63 := huntil ▸ (hidle sid e he).2
  exact expiry_within hset hnow hsmall (hsame ▸ hbefore) httl

namespace GrantedUser

def ring : KeyRing := ⟨1, [1]⟩

def bytes (text : String) : Bytes := text.toList.map fun c => c.toNat.toUInt8

/-- One user, granted one tenant. -/
def writes : List AdminWrite :=
  [.insertUserGrant ⟨"alice", "acme", ["editor"], ["*"], none⟩ ⟨0⟩]

def env : UserTokenEnv where
  hash _ := SessionToken.sample1.hash
  signWithKid claims := some ("k", claims.sub ++ "@" ++ claims.tenant)

def http : HttpConfig := ⟨"https://app.example", false, "/auth/login"⟩

def settings : IssuerSettings := ⟨"https://app.example", ["api"], {}, some "default", ["viewer"]⟩

def sessions : SessionMap := .runs {} [.create ⟨"s"⟩ ⟨"c"⟩ "alice" .sample1 ⟨0⟩]

def reads : GrantReads :=
  ⟨some (directory ring ⟨0⟩ writes).db, some (directory ring ⟨0⟩ writes).db,
    some (directory ring ⟨0⟩ writes).db⟩

def req : UserTokenRequest :=
  ⟨some (bytes "same-origin"), none, [bytes "broker_session=t"], some ("api", none), ⟨40⟩, ⟨40⟩, "j"⟩

end GrantedUser

open GrantedUser in
theorem user_token_within_grants_granted :
    ∃ granted value sm claims kid, issueUserToken env http settings sessions reads req = .ok granted ∧
      sessions.metaFor (env.hash value) = some sm ∧
      env.signWithKid claims = some (kid, granted.accessToken) ∧ granted.tenant = "acme" ∧
      claims.exp ≤ sm.refreshUntil := by
  have hidle : ∀ sid e, sessions.sessions sid = some e → e.idleExp.I64 := by
    intro sid e he
    by_cases hs : sid = ⟨"s"⟩
    · subst hs
      have hexp : (sessions.sessions ⟨"s"⟩).map (·.idleExp) = some ⟨604800⟩ := by decide +kernel
      rw [he, Option.map_some, Option.some.injEq] at hexp
      rw [hexp]
      exact ⟨by decide, by decide⟩
    · have hnone : sessions.sessions sid = none := Function.update_of_ne hs _ _
      rw [hnone] at he
      cases he
  have hissue : issueUserToken env http settings sessions reads req =
      .ok ⟨"alice@acme", "Bearer", 3600, "acme", ["editor"], ["*"]⟩ := by decide +kernel
  obtain ⟨value, sm, claims, kid, -, -, hm, hsign, -, -, -, htenant, -, -, -, hexp⟩ :=
    user_token_within_grants ring ⟨0⟩ writes [] [] env http settings
      (IssuerTimes.accepted_iff.2 (by decide)) sessions hidle reads
      ⟨by simp [reads], by simp [reads], by simp [reads]⟩ req ⟨by decide, by decide⟩ _ hissue
  exact ⟨_, value, sm, claims, kid, hissue, hm, hsign, rfl, (hexp rfl).2.2⟩

end SessionBroker
