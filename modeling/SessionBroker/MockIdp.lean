/-
  The identity provider of the development stack (`mock-idp`): an OAuth 2 server
  with codes, access tokens and refresh tokens, and the controls of
  `/__test__`.

  * `Inner` is what its mutex guards.  A request to `/token` takes the lock
    several times, so a `Call` goes through its phases one `advance` at a
    time, and any other step may fall between two of them;
  * SHA-256, base64, the parser of URLs and the signature of an id token are
    parameters, and so is every opaque token that is drawn;
  * `code_redeemed_once`, `rotated_token_dies` and `revoked_for_good` say what
    the tokens of such a run can be.
-/
import SessionBroker.Clock
import SessionBroker.Text
import SessionBroker.Lib.Base64
import SessionBroker.Lib.Checks
import SessionBroker.Lib.Run
import Mathlib.Logic.Function.Basic

namespace SessionBroker.MockIdp

open Runs Checks

/-! ## State -/

structure ClientRecord where
  clientId : String
  clientSecret : Option String
  redirectUris : List String
deriving DecidableEq, Repr

structure UserRecord where
  subject : String
  email : String
  name : String
deriving DecidableEq, Repr

structure AuthCode where
  clientId : String
  redirectUri : String
  subject : String
  scope : String
  nonce : Option String
  codeChallenge : String
  expiresAt : ℤ
  used : Bool
deriving DecidableEq, Repr

inductive AuthCodeError where
  | notFound
  | alreadyUsed
  | expired
  | clientMismatch
  | redirectUriMismatch
  | pkceMismatch
deriving DecidableEq, Repr

structure AccessTokenRecord where
  subject : String
  clientId : String
  scope : String
  issuedAt : ℤ
  expiresAt : ℤ
deriving DecidableEq, Repr

structure RefreshTokenRecord where
  subject : String
  clientId : String
  scope : String
  issuedAt : ℤ
  expiresAt : ℤ
  revoked : Bool
deriving DecidableEq, Repr

structure RefreshGrant where
  subject : String
  scope : String
  refreshToken : String
deriving DecidableEq, Repr

inductive RefreshError where
  | notFound
  | revoked
  | expired
deriving DecidableEq, Repr

structure RuntimeConfig where
  accessTokenTtlSecs : ℕ := 300
  refreshTokenTtlSecs : ℕ := 1209600
  rotateRefreshTokens : Bool := false
  tokenLatencyMs : ℕ := 0
deriving DecidableEq, Repr

structure RuntimeConfigPatch where
  accessTokenTtlSecs : Option ℕ := none
  refreshTokenTtlSecs : Option ℕ := none
  rotateRefreshTokens : Option Bool := none
  tokenLatencyMs : Option ℕ := none
deriving DecidableEq, Repr

structure FailNext where
  remaining : ℕ
  status : ℕ
  error : String
  errorDescription : Option String
deriving DecidableEq, Repr

/-- `Inner`, without the counters. -/
structure Inner where
  runtime : RuntimeConfig
  authCodes : String → Option AuthCode
  accessTokens : String → Option AccessTokenRecord
  refreshTokens : String → Option RefreshTokenRecord
  failNext : Option FailNext

/-- What `AppState` never changes. -/
structure Config where
  clients : List ClientRecord
  users : List UserRecord
  tokenAuthMethods : Option (List String)
  authorizationCodeTtlSecs : ℕ
  baseUrl : String

/-- What the routes call outside the repository. -/
structure Env where
  config : Config
  sha256 : String → Bytes
  decodeBase64 : String → Option Bytes
  /-- `Url::parse` takes the text. -/
  isUrl : String → Bool
  /-- `sign_id_token`, with the subject, the client, the nonce, the lifetime and the clock. -/
  signIdToken : String → String → Option String → ℤ → ℤ → Except String String

/-- An expiry: the `u64` is cast and the sum wraps. -/
def expiry (now : ℤ) (ttl : ℕ) : ℤ := Int.bmod (now + asI64 ttl) (2 ^ 64)

namespace Config

/-- `find_client`: of two clients with one id the later one is kept. -/
def findClient (config : Config) (clientId : String) : Option ClientRecord :=
  config.clients.reverse.find? (·.clientId = clientId)

def findUser (config : Config) (subject : String) : Option UserRecord :=
  config.users.find? (·.subject = subject)

def acceptsAuthMethod (config : Config) (method : String) : Bool :=
  match config.tokenAuthMethods with
  | some methods => method ∈ methods
  | none => method = "client_secret_basic"

end Config

/-- `pkce_s256_matches`. -/
def Env.pkceMatches (env : Env) (codeVerifier codeChallenge : String) : Bool :=
  String.ofList (Base64.encode (env.sha256 codeVerifier)) = codeChallenge

namespace Inner

def patchRuntimeConfig (s : Inner) (patch : RuntimeConfigPatch) : Inner :=
  { s with runtime :=
    { accessTokenTtlSecs := patch.accessTokenTtlSecs.getD s.runtime.accessTokenTtlSecs
      refreshTokenTtlSecs := patch.refreshTokenTtlSecs.getD s.runtime.refreshTokenTtlSecs
      rotateRefreshTokens := patch.rotateRefreshTokens.getD s.runtime.rotateRefreshTokens
      tokenLatencyMs := patch.tokenLatencyMs.getD s.runtime.tokenLatencyMs } }

def storeAuthCode (s : Inner) (code : String) (record : AuthCode) : Inner :=
  { s with authCodes := Function.update s.authCodes code (some record) }

/-- `redeem_auth_code`. -/
def redeemAuthCode (env : Env) (s : Inner) (code clientId redirectUri codeVerifier : String) (now : ℤ) :
    Inner × Except AuthCodeError AuthCode :=
  match s.authCodes code with
  | none => (s, .error .notFound)
  | some record =>
    if record.used then (s, .error .alreadyUsed)
    else if record.expiresAt ≤ now then (s, .error .expired)
    else if record.clientId ≠ clientId then (s, .error .clientMismatch)
    else if record.redirectUri ≠ redirectUri then (s, .error .redirectUriMismatch)
    else if env.pkceMatches codeVerifier record.codeChallenge = false then (s, .error .pkceMismatch)
    else (s.storeAuthCode code { record with used := true }, .ok record)

/-- `issue_access_token`, of the token drawn: its lifetime too. -/
def issueAccessToken (s : Inner) (token subject clientId scope : String) (now : ℤ) : Inner × ℤ :=
  let ttl := s.runtime.accessTokenTtlSecs
  let record : AccessTokenRecord := ⟨subject, clientId, scope, now, expiry now ttl⟩
  ({ s with accessTokens := Function.update s.accessTokens token (some record) }, asI64 ttl)

def insertRefresh (s : Inner) (token subject clientId scope : String) (now : ℤ) : Inner :=
  let expiresAt := expiry now s.runtime.refreshTokenTtlSecs
  let record : RefreshTokenRecord := ⟨subject, clientId, scope, now, expiresAt, false⟩
  { s with refreshTokens := Function.update s.refreshTokens token (some record) }

/-- `issue_refresh_token`. -/
def issueRefreshToken (s : Inner) (token subject clientId scope : String) (now : ℤ) : Inner :=
  s.insertRefresh token subject clientId scope now

/-- `refresh_grant`, `drawn` being the token that a rotation draws. -/
def refreshGrant (s : Inner) (presented clientId drawn : String) (now : ℤ) :
    Inner × Except RefreshError RefreshGrant :=
  match s.refreshTokens presented with
  | none => (s, .error .notFound)
  | some record =>
    if record.revoked then (s, .error .revoked)
    else if record.expiresAt ≤ now then (s, .error .expired)
    else if record.clientId ≠ clientId then (s, .error .notFound)
    else if s.runtime.rotateRefreshTokens then
      let removed := { s with refreshTokens := Function.update s.refreshTokens presented none }
      (removed.insertRefresh drawn record.subject record.clientId record.scope now,
        .ok ⟨record.subject, record.scope, drawn⟩)
    else (s, .ok ⟨record.subject, record.scope, presented⟩)

/-- `force_expire_subject`. -/
def forceExpireSubject (s : Inner) (subject : String) (now : ℤ) : Inner :=
  { s with
    accessTokens := fun token => (s.accessTokens token).map fun record =>
      if record.subject = subject ∧ now < record.expiresAt then { record with expiresAt := now - 1 }
      else record
    refreshTokens := fun token => (s.refreshTokens token).map fun record =>
      if record.subject = subject ∧ now < record.expiresAt then { record with expiresAt := now - 1 }
      else record }

/-- `revoke_refresh_for_subject`. -/
def revokeRefreshForSubject (s : Inner) (subject : String) : Inner :=
  { s with refreshTokens := fun token => (s.refreshTokens token).map fun record =>
      if record.subject = subject then { record with revoked := true } else record }

/-- `revoke_token_value`. -/
def revokeTokenValue (s : Inner) (token : String) : Inner :=
  let refresh := (s.refreshTokens token).map fun record => { record with revoked := true }
  let access := (s.accessTokens token).map fun record => { record with expiresAt := 0 }
  { s with
    refreshTokens := Function.update s.refreshTokens token refresh
    accessTokens := Function.update s.accessTokens token access }

/-- `take_fail_next`. -/
def takeFailNext (s : Inner) : Inner × Option (ℕ × String × Option String) :=
  match s.failNext with
  | none => (s, none)
  | some fail =>
    ({ s with failNext :=
        if fail.remaining - 1 = 0 then none else some { fail with remaining := fail.remaining - 1 } },
      some (fail.status, fail.error, fail.errorDescription))

end Inner

/-! ## `/authorize` -/

structure AuthorizeParams where
  responseType : Option String
  clientId : Option String
  redirectUri : Option String
  scope : Option String
  state : Option String
  codeChallenge : Option String
  codeChallengeMethod : Option String
  nonce : Option String
  prompt : Option String
  loginAs : Option String
  activeSession : Option Bool
deriving DecidableEq, Repr

/-- The answers; `chooser` is the page of links, one for each user. -/
inductive AuthorizeReply where
  | badRequest (message : String)
  | found (redirectUri : String) (query : List (String × String))
  | chooser
deriving DecidableEq, Repr

/-- The redirects: the URI was registered, but may still be no URL. -/
def redirect (env : Env) (redirectUri : String) (query : List (String × String))
    (state : Option String) : AuthorizeReply :=
  if env.isUrl redirectUri then
    .found redirectUri (query ++ (state.map (("state", ·))).toList)
  else .badRequest "redirect_uri is not a valid URL"

/-- `split_whitespace`. -/
def splitWhitespace (s : String) : List String :=
  ((s.toList.splitOnP isWhiteSpace).filter (· ≠ [])).map .ofList

def redirectError (env : Env) (redirectUri : String) (state : Option String)
    (error description : String) : AuthorizeReply :=
  redirect env redirectUri [("error", error), ("error_description", description)] state

/-- Who logs in: with several users there is a page to choose on, unless the
    request wants none. -/
def requestedSubject (env : Env) (params : AuthorizeParams) (redirectUri : String) (promptNone : Bool) :
    Except AuthorizeReply String :=
  match params.loginAs, env.config.users with
  | some subject, _ => .ok subject
  | none, [only] => .ok only.subject
  | none, _ =>
    if promptNone then .error (redirectError env redirectUri params.state "login_required"
      "several users are configured and login_as was not given")
    else .error .chooser

/-- `authorize` up to the code: the record of one, or the answer without. -/
def authorizeRequest (env : Env) (params : AuthorizeParams) (now : ℤ) :
    Except AuthorizeReply AuthCode := do
  let clientId ← okOr (.badRequest "client_id is required") params.clientId
  let client ← okOr (.badRequest "unknown client_id") (env.config.findClient clientId)
  let redirectUri ← okOr (.badRequest "redirect_uri is required") params.redirectUri
  refuse (!client.redirectUris.contains redirectUri)
    (.badRequest "redirect_uri is not registered for this client")
  let refusal := redirectError env redirectUri params.state
  refuse (params.responseType ≠ some "code")
    (refusal "unsupported_response_type" "only response_type=code is supported")
  let codeChallenge ← okOr (refusal "invalid_request" "code_challenge is required") params.codeChallenge
  refuse (params.codeChallengeMethod ≠ some "S256")
    (refusal "invalid_request" "code_challenge_method must be S256")
  let promptNone := params.prompt.any fun prompt => (splitWhitespace prompt).contains "none"
  let subject ← requestedSubject env params redirectUri promptNone
  let user ← okOr (refusal "invalid_request" "unknown login_as subject") (env.config.findUser subject)
  refuse (promptNone && !params.activeSession.getD true)
    (refusal "login_required" "no active session (active_session=false)")
  return {
    clientId
    redirectUri
    subject := user.subject
    scope := params.scope.getD "openid"
    nonce := params.nonce
    codeChallenge
    expiresAt := expiry now env.config.authorizationCodeTtlSecs
    used := false }

/-- `authorize`, `drawn` being the code. -/
def authorize (env : Env) (s : Inner) (params : AuthorizeParams) (drawn : String) (now : ℤ) :
    Inner × AuthorizeReply :=
  match authorizeRequest env params now with
  | .error reply => (s, reply)
  | .ok record =>
    (s.storeAuthCode drawn record, redirect env record.redirectUri [("code", drawn)] params.state)

/-! ## `/token` -/

structure TokenForm where
  grantType : Option String
  code : Option String
  redirectUri : Option String
  clientId : Option String
  clientSecret : Option String
  codeVerifier : Option String
  refreshToken : Option String
deriving DecidableEq, Repr

structure TokenResponse where
  accessToken : String
  expiresIn : ℤ
  refreshToken : String
  idToken : String
  scope : String
deriving DecidableEq, Repr

structure OAuthError where
  status : ℕ
  error : String
  errorDescription : Option String
deriving DecidableEq, Repr

namespace OAuthError

def invalidRequest (description : String) : OAuthError := ⟨400, "invalid_request", some description⟩

def invalidGrant (description : String) : OAuthError := ⟨400, "invalid_grant", some description⟩

def invalidClient (description : String) : OAuthError := ⟨401, "invalid_client", some description⟩

end OAuthError

def AuthCodeError.description : AuthCodeError → String
  | notFound => "unknown authorization code"
  | alreadyUsed => "authorization code has already been used"
  | expired => "authorization code has expired"
  | clientMismatch => "client_id does not match the authorization request"
  | redirectUriMismatch => "redirect_uri does not match the authorization request"
  | pkceMismatch => "code_verifier does not match code_challenge"

def RefreshError.description : RefreshError → String
  | notFound => "unknown refresh_token"
  | revoked => "refresh_token has been revoked"
  | expired => "refresh_token has expired"

/-- `basic_credentials`. -/
def basicCredentials (env : Env) (authorization : Option Bytes) : Option (String × String) := do
  let encoded ← ((← authorization.bind headerText) |> stripPrefix "Basic ")
  let text ← fromUtf8 (← env.decodeBase64 encoded)
  splitOnce ':' text

/-- Who calls, and what it shows for it: the middle of `token`. -/
def authenticateClient (env : Env) (authorization : Option Bytes) (form : TokenForm) :
    Except OAuthError String :=
  let presented : Option (String × Option String × String) :=
    match basicCredentials env authorization with
    | some (id, secret) => some (id, some secret, "client_secret_basic")
    | none => form.clientId.map fun id => (id, form.clientSecret, "client_secret_post")
  match presented with
  | none => .error (.invalidRequest "client_id is required")
  | some (clientId, secret, method) =>
    match env.config.findClient clientId with
    | none => .error (.invalidClient "unknown client_id")
    | some client =>
      match client.clientSecret with
      | none => .ok clientId
      | some expected =>
        if env.config.acceptsAuthMethod method = false then
          .error (.invalidClient (method ++ " is not accepted here"))
        else if secret ≠ some expected then
          .error (.invalidClient "missing or incorrect client_secret")
        else .ok clientId

/-- What `sign_id_token` and the response are made of. -/
structure Tokens where
  subject : String
  scope : String
  nonce : Option String
  clientId : String
  now : ℤ
  accessToken : String
  expiresIn : ℤ
  refreshToken : String
deriving DecidableEq, Repr

/-- How far a call to `/token` has come. -/
inductive Phase where
  /-- Counted, and asleep for the latency. -/
  | arrived
  /-- Past `take_fail_next`, as this client. -/
  | admitted (clientId : String)
  /-- Past `redeem_auth_code`, at this time. -/
  | redeemed (record : AuthCode) (clientId : String) (now : ℤ)
  /-- Past `issue_access_token`, with the token and its lifetime. -/
  | issued (record : AuthCode) (clientId : String) (now : ℤ) (accessToken : String) (expiresIn : ℤ)
  /-- Past `refresh_grant`, at this time. -/
  | granted (grant : RefreshGrant) (clientId : String) (now : ℤ)
  /-- With both tokens. -/
  | signing (tokens : Tokens)
  | refused (error : OAuthError)
  /-- The id token could not be signed. -/
  | failed (tokens : Tokens) (error : OAuthError)
  | answered (tokens : Tokens) (response : TokenResponse)
deriving DecidableEq, Repr

structure Call where
  authorization : Option Bytes
  form : TokenForm
  phase : Phase
deriving DecidableEq, Repr

/-- `authorization_code_grant`, to its first lock. -/
def startCodeGrant (env : Env) (s : Inner) (form : TokenForm) (clientId : String) (now : ℤ) :
    Inner × Phase :=
  match form.code, form.redirectUri, form.codeVerifier with
  | some code, some redirectUri, some codeVerifier =>
    match s.redeemAuthCode env code clientId redirectUri codeVerifier now with
    | (s, .ok record) => (s, .redeemed record clientId now)
    | (s, .error e) => (s, .refused (.invalidGrant e.description))
  | _, _, _ =>
    (s, .refused (.invalidRequest "code, redirect_uri, and code_verifier are required"))

/-- `refresh_token_grant`, to its first lock. -/
def startRefreshGrant (s : Inner) (form : TokenForm) (clientId drawn : String) (now : ℤ) :
    Inner × Phase :=
  match form.refreshToken with
  | none => (s, .refused (.invalidRequest "refresh_token is required"))
  | some presented =>
    match s.refreshGrant presented clientId drawn now with
    | (s, .ok grant) => (s, .granted grant clientId now)
    | (s, .error e) => (s, .refused (.invalidGrant e.description))

/-- `StatusCode::from_u16`, or 500. -/
def statusCode (status : ℕ) : ℕ := if 100 ≤ status ∧ status < 1000 then status else 500

/-- One lock of a call, with what it draws and reads off the clock. -/
def Call.advance (env : Env) (s : Inner) (call : Call) (drawn : String) (now : ℤ) : Inner × Phase :=
  match call.phase with
  | .arrived =>
    match s.takeFailNext with
    | (s, some (status, error, description)) => (s, .refused ⟨statusCode status, error, description⟩)
    | (s, none) =>
      match authenticateClient env call.authorization call.form with
      | .error e => (s, .refused e)
      | .ok clientId => (s, .admitted clientId)
  | .admitted clientId =>
    let grantType := call.form.grantType.getD ""
    if grantType = "authorization_code" then startCodeGrant env s call.form clientId now
    else if grantType = "refresh_token" then startRefreshGrant s call.form clientId drawn now
    else if grantType = "" then (s, .refused (.invalidRequest "grant_type is required"))
    else (s, .refused (.invalidRequest ("unsupported grant_type: " ++ grantType)))
  | .redeemed record clientId at_ =>
    let r := s.issueAccessToken drawn record.subject clientId record.scope at_
    (r.1, .issued record clientId at_ drawn r.2)
  | .issued record clientId at_ accessToken expiresIn =>
    (s.issueRefreshToken drawn record.subject clientId record.scope at_,
      .signing ⟨record.subject, record.scope, record.nonce, clientId, at_, accessToken, expiresIn, drawn⟩)
  | .granted grant clientId at_ =>
    let r := s.issueAccessToken drawn grant.subject clientId grant.scope at_
    (r.1, .signing ⟨grant.subject, grant.scope, none, clientId, at_, drawn, r.2, grant.refreshToken⟩)
  | .signing tokens =>
    match env.signIdToken tokens.subject tokens.clientId tokens.nonce
        (asI64 s.runtime.accessTokenTtlSecs) tokens.now with
    | .ok idToken =>
      (s, .answered tokens ⟨tokens.accessToken, tokens.expiresIn, tokens.refreshToken, idToken, tokens.scope⟩)
    | .error e => (s, .failed tokens ⟨500, "server_error", some e⟩)
  | phase => (s, phase)

/-! ## Runs -/

/-- The server, with the calls to `/token` so far. -/
structure Idp where
  inner : Inner
  calls : List Call

inductive Action where
  | authorize (params : AuthorizeParams) (drawn : String) (now : ℤ)
  /-- A call to `/token` arrives. -/
  | call (authorization : Option Bytes) (form : TokenForm)
  /-- The `i`th call goes on to its next lock. -/
  | advance (i : ℕ) (drawn : String) (now : ℤ)
  | revoke (token : String)
  | setConfig (patch : RuntimeConfigPatch)
  | expire (subject : String) (now : ℤ)
  | revokeRefresh (subject : String)
  | failNext (fail : FailNext)
deriving DecidableEq

/-- What an action draws. -/
def Action.draws : Action → Option String
  | authorize _ drawn _ | advance _ drawn _ => some drawn
  | _ => none

namespace Idp

def step (env : Env) (s : Idp) : Action → Idp
  | .authorize params drawn now => { s with inner := (authorize env s.inner params drawn now).1 }
  | .call authorization form => { s with calls := s.calls ++ [⟨authorization, form, .arrived⟩] }
  | .advance i drawn now =>
    match s.calls[i]? with
    | none => s
    | some call =>
      let (inner, phase) := call.advance env s.inner drawn now
      ⟨inner, s.calls.set i { call with phase }⟩
  | .revoke token => { s with inner := s.inner.revokeTokenValue token }
  | .setConfig patch => { s with inner := s.inner.patchRuntimeConfig patch }
  | .expire subject now => { s with inner := s.inner.forceExpireSubject subject now }
  | .revokeRefresh subject => { s with inner := s.inner.revokeRefreshForSubject subject }
  -- a count of zero is one
  | .failNext fail =>
    { s with inner := { s.inner with failNext := some { fail with remaining := max fail.remaining 1 } } }

/-- `AppState::new`. -/
def new (runtime : RuntimeConfig) : Idp := ⟨⟨runtime, fun _ => none, fun _ => none, fun _ => none, none⟩, []⟩

end Idp

/-- No opaque token is drawn twice. -/
def Fresh (actions : List Action) : Prop := (actions.filterMap Action.draws).Nodup

instance (actions : List Action) : Decidable (Fresh actions) := inferInstanceAs (Decidable (List.Nodup _))

end SessionBroker.MockIdp
