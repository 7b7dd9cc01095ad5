/-
  `POST /auth/token` (`http/token.rs`), with the reads of the store it makes.

  * The body is the list of form fields, or the status the form was rejected
    with.  SHA-256, base64 and the signer are parameters, and a failed read of
    the store is part of the request it meets;
  * a reply is absent where the limiter panics: the connection drops;
  * `issueInner_dead`: a request whose credentials authenticate in no store gets
    a refusal its text decides;
  * `dead_credentials_alike`: any sequence of such requests gets the same
    answers from two stores that agree on which of its ids name a principal, or
    where no limiter is on.
-/
import SessionBroker.Db
import SessionBroker.Limiter
import SessionBroker.Text

namespace SessionBroker

/-! ## The store's reads -/

namespace Db

/-- `get_principal`. -/
def getPrincipal (db : Db) (principalId : String) : Option PrincipalRow :=
  db.principal.find? fun p => p.principalId = principalId

/-- `find_live_principal_by_secret`. -/
def findLivePrincipalBySecret (db : Db) (secretHash : Bytes) (now : Timestamp) :
    Option PrincipalRow :=
  db.principalSecret.findSome? fun s =>
    if s.secretHash = secretHash ∧ s.revokedAt = none ∧ (∀ e ∈ s.expiresAt, now < e) then
      db.principal.find? fun p => p.principalId = s.principalId ∧ p.revokedAt = none ∧
        db.tenant.any fun t => t.tenantId = p.tenantId ∧ t.disabledAt = none
    else none

end Db

/-! ## Answers -/

structure Refusal where
  status : ℕ
  error : String
  description : String
deriving DecidableEq, Repr

namespace Refusal

def invalidRequest (description : String) : Refusal := ⟨400, "invalid_request", description⟩

/-- One body for every reason a credential does not work. -/
def invalidClient : Refusal := ⟨401, "invalid_client", "Client authentication failed."⟩

def unavailable : Refusal :=
  ⟨503, "temporarily_unavailable", "The token could not be issued right now. Retry shortly."⟩

end Refusal

structure Granted where
  accessToken : String
  tokenType : String
  expiresIn : ℕ
  scope : String
deriving DecidableEq, Repr

inductive TokenBody where
  | error (error description : String)
  | granted (granted : Granted)
deriving DecidableEq, Repr

structure TokenResponse where
  status : ℕ
  headers : List (String × String)
  body : TokenBody
deriving DecidableEq, Repr

/-- `CHALLENGE`. -/
def challenge : String := "Basic realm=\"session-broker\", charset=\"UTF-8\""

def respond (status : ℕ) (error description : String) : TokenResponse where
  status
  headers := [("content-type", "application/json"), ("cache-control", "no-store")] ++
    if status = 401 then [("www-authenticate", challenge)] else []
  body := .error error description

/-- `Refusal::into_response`. -/
def Refusal.intoResponse (r : Refusal) : TokenResponse := respond r.status r.error r.description

/-! ## Requests -/

structure IssuerConfig where
  issuer : String
  audiences : List String
  machineTtlSecs : ℕ
  maxTtlSecs : ℕ
deriving DecidableEq, Repr

/-- The claims of a machine token. -/
structure MachineClaims where
  iss : String
  sub : String
  aud : String
  exp : ℤ
  iat : ℤ
  jti : String
  tenant : String
  kind : String
  name : String
  scopes : List String
  indexes : List String
deriving DecidableEq, Repr

/-- What the route calls outside the repository, and the signer. -/
structure TokenEnv where
  checked : Bool
  sha256 : String → Bytes
  decodeBase64 : String → Option Bytes
  signWithKid : Db → Timestamp → MachineClaims → Option String

/-- `IssuerHandle`. -/
structure IssuerHandle where
  config : IssuerConfig
  clientFailures : Option Limiter
deriving DecidableEq, Repr

/-- One request, with the clock readings it meets: when the secret is looked up,
    when the token is signed, and the instant of the limiter. -/
structure TokenRequest where
  authorization : Option Bytes
  form : Except ℕ (List (String × String))
  lookupAt : Timestamp
  lookupFails : Bool
  signAt : Timestamp
  jti : String
  existsFails : Bool
  instant : ℕ

/-! ## Who is asking -/

/-- One parameter of the form: an error where it was sent twice. -/
def formField (fields : List (String × String)) (name : String) :
    Except Refusal (Option String) :=
  match (fields.filter fun kv => kv.1 = name).map (·.2) with
  | [] => .ok none
  | [v] => .ok (if v = "" then none else some v)
  | _ => .error (.invalidRequest "A parameter was sent more than once.")

/-- `basic_credentials`. -/
def basicCredentials (env : TokenEnv) (authorization : Option Bytes) :
    Except Refusal (Option (String × String)) :=
  match authorization with
  | none => .ok none
  | some value =>
    let encoded := ((headerText value).bind (splitOnce ' ')).filter fun parts =>
      parts.1.toList.map Char.toLower = "basic".toList
    match encoded.bind fun parts =>
        ((env.decodeBase64 (trim parts.2)).bind fromUtf8).bind (splitOnce ':') with
    | some pair => .ok (some pair)
    | none => .error .invalidClient

/-- The form's parameters and the credentials, as far as the text goes. -/
structure Presented where
  ttl : Option ℕ
  scope : Option String
  clientId : String
  secret : String
deriving DecidableEq, Repr

/-- The first half of `issue_inner`, up to the choice of the credentials. -/
def presented (env : TokenEnv) (req : TokenRequest) : Except Refusal Presented := do
  let fields ← match req.form with
    | .ok fields => .ok fields
    | .error status => .error ⟨if status = 413 then 413 else 400, "invalid_request",
        "The body must be application/x-www-form-urlencoded."⟩
  match ← formField fields "grant_type" with
  | some grant =>
    if grant ≠ "client_credentials" then
      throw ⟨400, "unsupported_grant_type", "Only grant_type=client_credentials is supported."⟩
  | none => throw (.invalidRequest "grant_type is required.")
  let ttl ← match ← formField fields "ttl" with
    | some raw => match (parseU64 raw).filter (0 < ·) with
      | some secs => .ok (some secs)
      | none => .error (.invalidRequest "ttl must be a whole number of seconds, at least 1.")
    | none => .ok none
  let scope ← formField fields "scope"
  let bodyId ← formField fields "client_id"
  let bodySecret ← formField fields "client_secret"
  match ← basicCredentials env req.authorization, bodyId, bodySecret with
  | some _, _, some _ => .error (.invalidRequest
      "Send the client secret in the Authorization header or in the body, not both.")
  | some (id, secret), bodyId, none =>
    if bodyId.any (id ≠ ·) then
      .error (.invalidRequest "client_id in the body does not match the Authorization header.")
    else .ok ⟨ttl, scope, id, secret⟩
  | none, some id, some secret => .ok ⟨ttl, scope, id, secret⟩
  | none, _, _ => .error .invalidClient

/-- `is_principal_id`. -/
def isPrincipalId (value : String) : Bool :=
  value.utf8ByteSize ≤ 64 && value.toList.take 3 == "sp_".toList &&
    value.toList.drop 3 != [] &&
    (value.toList.drop 3).all fun c => c.isAlphanum || c == '_' || c == '-'

/-- The shape of a secret: `sbp_…`, at most 128 bytes. -/
def secretShaped (secret : String) : Bool :=
  secret.toList.take 4 == "sbp_".toList && secret.utf8ByteSize ≤ 128

/-- `Issuer::authenticate`; the outer `none` is a failed read. -/
def authenticate (env : TokenEnv) (db : Db) (req : TokenRequest) (secret : String) :
    Option (Option PrincipalRow) :=
  if req.lookupFails then none
  else some (db.findLivePrincipalBySecret (env.sha256 secret) req.lookupAt)

/-! ## What it may have -/

/-- The scopes of the request, each one held, none twice. -/
def narrow (held narrowed : List String) : List String → Except Refusal (List String)
  | [] => .ok narrowed
  | scope :: rest =>
    if scope ∉ held then
      .error ⟨400, "invalid_scope", "The requested scope is not one this principal holds."⟩
    else narrow held (if scope ∈ narrowed then narrowed else narrowed ++ [scope]) rest

/-- The last half of `issue_inner`, for the principal its secret names. -/
def grant (env : TokenEnv) (config : IssuerConfig) (db : Db) (req : TokenRequest)
    (principal : PrincipalRow) (ttl : Option ℕ) (scope : Option String) :
    Except Refusal Granted := do
  if principal.audience ∉ config.audiences then
    throw ⟨400, "unauthorized_client", "This principal's audience is not one this issuer is " ++
      "configured for (issuer_audiences)."⟩
  let scopes ← match scope with
    | some requested => do
      let words := (requested.toList.splitOn ' ').filter (· ≠ [])
      let narrowed ← narrow principal.scopes [] (words.map String.ofList)
      pure (if narrowed = [] then principal.scopes else narrowed)
    | none => pure principal.scopes
  let ceiling := min principal.maxTtlSecs.toNat config.maxTtlSecs
  let ttl ← match ttl with
    | some asked =>
      if ceiling < asked then
        .error (.invalidRequest "ttl is longer than this principal's maximum token lifetime.")
      else .ok asked
    | none => .ok (min config.machineTtlSecs ceiling)
  let claims : MachineClaims :=
    { iss := config.issuer
      sub := principal.principalId
      aud := principal.audience
      exp := (req.signAt.plusSecs ttl).secs
      iat := req.signAt.secs
      jti := req.jti
      tenant := principal.tenantId
      kind := principal.kind
      name := principal.name
      scopes
      indexes := principal.indexes }
  match env.signWithKid db req.signAt claims with
  | some token => .ok ⟨token, "Bearer", ttl, String.intercalate " " scopes⟩
  | none => .error .unavailable

/-! ## The route -/

/-- `issue_inner`, with the `client_id` it leaves in the attempt. -/
def issueInner (env : TokenEnv) (config : IssuerConfig) (db : Db) (req : TokenRequest) :
    Option String × Except Refusal Granted :=
  match presented env req with
  | .error refusal => (none, .error refusal)
  | .ok p =>
    if ¬ isPrincipalId p.clientId then (none, .error .invalidClient)
    else if ¬ secretShaped p.secret then (some p.clientId, .error .invalidClient)
    else match authenticate env db req p.secret with
      | none => (some p.clientId, .error .unavailable)
      | some none => (some p.clientId, .error .invalidClient)
      | some (some principal) =>
        if principal.principalId = p.clientId then
          (some p.clientId, grant env config db req principal p.ttl p.scope)
        else (some p.clientId, .error .invalidClient)

/-- `principal_exists`, a failed read counted as unknown. -/
def principalExists (db : Db) (req : TokenRequest) (id : String) : Bool :=
  !req.existsFails && (db.getPrincipal id).isSome

/-- The bucket a failure is counted in. -/
def failureKey (db : Db) (req : TokenRequest) (clientId : Option String) : String :=
  "issuer_client:" ++ (clientId.filter (principalExists db req)).getD "unknown"

/-- The answer past the budget. -/
def rateLimited (retryAfterNanos : ℕ) : TokenResponse :=
  let response := respond 429 "rate_limited"
    "Too many failed attempts for this client. Retry after the interval in Retry-After."
  { response with headers := response.headers ++
      [("retry-after", toString (max (retryAfterNanos / 1000000000) 1))] }

/-- The answer to an `invalid_client`, through `spend_failure`. -/
def spendFailure (env : TokenEnv) (db : Db) (req : TokenRequest) (clientId : Option String)
    (limiter : Option Limiter) : Option TokenResponse × Option Limiter :=
  match limiter with
  | none => (some Refusal.invalidClient.intoResponse, none)
  | some limiter =>
    match limiter.checkAt env.checked (failureKey db req clientId) req.instant with
    | (some .allow, limiter) => (some Refusal.invalidClient.intoResponse, some limiter)
    | (some (.deny retryAfter), limiter) => (some (rateLimited retryAfter), some limiter)
    | (none, limiter) => (none, some limiter)

/-- `issue`: the reply, and the handle with its limiter. -/
def issue (env : TokenEnv) (db : Db) (handle : Option IssuerHandle) (req : TokenRequest) :
    Option TokenResponse × Option IssuerHandle :=
  match handle with
  | none => (some (respond 501 "lane_disabled"
      "The token issuer is not configured: set token_issuer and issuer_audiences."), none)
  | some h =>
    match issueInner env h.config db req with
    | (_, .ok granted) => (some ⟨200, [("content-type", "application/json"),
        ("cache-control", "no-store"), ("pragma", "no-cache")], .granted granted⟩, some h)
    | (clientId, .error refusal) =>
      if refusal.error = "invalid_client" then
        ((spendFailure env db req clientId h.clientFailures).1,
          some { h with clientFailures := (spendFailure env db req clientId h.clientFailures).2 })
      else (some refusal.intoResponse, some h)

/-- The replies to requests, one after the other. -/
def answers (env : TokenEnv) (db : Db) :
    Option IssuerHandle → List TokenRequest → List (Option TokenResponse)
  | _, [] => []
  | handle, req :: reqs =>
    (issue env db handle req).1 :: answers env db (issue env db handle req).2 reqs

/-! ## Dead credentials -/

/-- **The credentials of the request are dead**: the secret it presents, if any,
    does not authenticate the `client_id` it presents. -/
def TokenRequest.Dead (env : TokenEnv) (db : Db) (req : TokenRequest) : Prop :=
  ∀ p, presented env req = .ok p → ∀ principal,
    db.findLivePrincipalBySecret (env.sha256 p.secret) req.lookupAt = some principal →
    principal.principalId ≠ p.clientId

/-- The `client_id` a request is counted under: one with the shape of a
    principal's id. -/
def TokenRequest.attempted (env : TokenEnv) (req : TokenRequest) : Option String :=
  match presented env req with
  | .ok p => if isPrincipalId p.clientId then some p.clientId else none
  | .error _ => none

/-- The refusal of a request whose credentials are dead. -/
def TokenRequest.refusal (env : TokenEnv) (req : TokenRequest) : Refusal :=
  match presented env req with
  | .ok p =>
    if isPrincipalId p.clientId ∧ secretShaped p.secret ∧ req.lookupFails then .unavailable
    else .invalidClient
  | .error refusal => refusal

/-- The limiter is off. -/
def Unlimited (handle : Option IssuerHandle) : Prop := ∀ h ∈ handle, h.clientFailures = none

/-- The stores agree on whether the `client_id` of the request names a principal. -/
def TokenRequest.SameId (env : TokenEnv) (db₁ db₂ : Db) (req : TokenRequest) : Prop :=
  ∀ id ∈ req.attempted env, (db₁.getPrincipal id).isSome = (db₂.getPrincipal id).isSome

section

variable {env : TokenEnv} {config : IssuerConfig} {db db₁ db₂ : Db} {req : TokenRequest}
  {handle : Option IssuerHandle}

theorem issueInner_attempted : (issueInner env config db req).1 = req.attempted env := by
  unfold issueInner TokenRequest.attempted
  cases presented env req with
  | error refusal => rfl
  | ok p =>
    simp only
    by_cases hid : isPrincipalId p.clientId
    · rw [if_neg (by simpa using hid), if_pos hid]
      split_ifs
      · split
        · rfl
        · rfl
        · split_ifs <;> rfl
      · rfl
    · rw [if_pos hid, if_neg hid]

/-- No store shows in the refusal of dead credentials. -/
theorem issueInner_dead (hdead : req.Dead env db) :
    issueInner env config db req = (req.attempted env, .error (req.refusal env)) := by
  refine Prod.ext issueInner_attempted ?_
  unfold issueInner TokenRequest.refusal
  cases hp : presented env req with
  | error refusal => rfl
  | ok p =>
    simp only
    by_cases hid : isPrincipalId p.clientId
    · rw [if_neg (by simpa using hid)]
      by_cases hshape : secretShaped p.secret
      · rw [if_neg (by simpa using hshape)]
        cases hf : req.lookupFails with
        | true => simp [authenticate, hf, hid, hshape]
        | false =>
          simp only [authenticate, hf, hid, hshape]
          cases hlive : db.findLivePrincipalBySecret (env.sha256 p.secret) req.lookupAt with
          | none => rfl
          | some principal =>
            -- live, but for another id
            have hother : principal.principalId ≠ p.clientId := hdead p hp principal hlive
            simp [hother]
      · simp [hshape]
    · simp [hid]

theorem TokenRequest.SameId.failureKey (h : req.SameId env db₁ db₂) :
    failureKey db₁ req (req.attempted env) = failureKey db₂ req (req.attempted env) := by
  unfold SessionBroker.failureKey
  cases hid : req.attempted env with
  | none => rfl
  | some id =>
    have hsame := h id hid
    simp only [Option.filter, principalExists, hsame]
    rfl

theorem spendFailure_unlimited {clientId : Option String} :
    spendFailure env db req clientId none = (some Refusal.invalidClient.intoResponse, none) := rfl

/-- A step answers dead credentials alike, and leaves the same limiter. -/
theorem issue_eq (h₁ : req.Dead env db₁) (h₂ : req.Dead env db₂)
    (hsame : Unlimited handle ∨ req.SameId env db₁ db₂) :
    issue env db₁ handle req = issue env db₂ handle req := by
  cases handle with
  | none => rfl
  | some h =>
    simp only [issue, issueInner_dead h₁, issueInner_dead h₂]
    have hspend : spendFailure env db₁ req (req.attempted env) h.clientFailures =
        spendFailure env db₂ req (req.attempted env) h.clientFailures := by
      rcases hsame with hoff | hsame
      · rw [hoff h rfl, spendFailure_unlimited, spendFailure_unlimited]
      · unfold spendFailure
        rw [hsame.failureKey]
    rw [hspend]

theorem Unlimited.issue (hoff : Unlimited handle) : Unlimited (issue env db handle req).2 := by
  cases handle with
  | none =>
    intro h hh
    cases hh
  | some h =>
    have hh : h.clientFailures = none := hoff h rfl
    unfold SessionBroker.issue
    simp only
    split
    · exact hoff
    · split_ifs
      · intro h' hh'
        cases hh'
        rw [hh]
        rfl
      · exact hoff

/-- **Dead credentials look alike** to any sequence of requests, up to whose
    budget pays for a failure. -/
theorem dead_credentials_alike (reqs : List TokenRequest)
    (hdead : ∀ req ∈ reqs, req.Dead env db₁ ∧ req.Dead env db₂)
    (hsame : Unlimited handle ∨ ∀ req ∈ reqs, req.SameId env db₁ db₂) :
    answers env db₁ handle reqs = answers env db₂ handle reqs := by
  induction reqs generalizing handle with
  | nil => rfl
  | cons req reqs ih =>
    obtain ⟨h₁, h₂⟩ := hdead req (by simp)
    have hstep : issue env db₁ handle req = issue env db₂ handle req :=
      issue_eq h₁ h₂ (hsame.imp id fun h => h req (by simp))
    rw [answers, answers, hstep]
    congr 1
    refine ih (fun r hr => hdead r (List.mem_cons_of_mem _ hr)) ?_
    rcases hsame with hoff | hsame
    · exact Or.inl hoff.issue
    · exact Or.inr fun r hr => hsame r (List.mem_cons_of_mem _ hr)

end

/-! ## What the budget tells -/

namespace TwoStores

/-- A principal with no secret. -/
def principal : PrincipalRow :=
  ⟨"sp_a", "default", "agent", "machine", [], [], "logless", 3600, ⟨0⟩, none, none, none⟩

/-- The store where `sp_a` names a principal. -/
def named : Db := { Db.fresh ⟨0⟩ with principal := [principal] }

def env : TokenEnv := ⟨false, fun _ => [], fun _ => none, fun _ _ _ => none⟩

/-- The issuer, with one failure a minute for each id. -/
def handle : IssuerHandle :=
  ⟨⟨"https://broker.example", ["logless"], 3600, 3600⟩, some (.new (.new 1 60) 16384)⟩

/-- A guess at the secret of `id`. -/
def guess (id : String) : TokenRequest where
  authorization := none
  form := .ok [("grant_type", "client_credentials"), ("client_id", id), ("client_secret", "sbp_x")]
  lookupAt := ⟨100⟩
  lookupFails := false
  signAt := ⟨100⟩
  jti := ""
  existsFails := false
  instant := 0

/-- No secret is on file in either store. -/
theorem guess_dead (id : String) :
    (guess id).Dead env named ∧ (guess id).Dead env (Db.fresh ⟨0⟩) := by
  constructor
  · intro p _ principal hlive
    cases hlive
  · intro p _ principal hlive
    cases hlive

end TwoStores

/-- The bucket of unknown ids is spent by a guess at `sp_b`; whether a guess at
    `sp_a` still answers 401 tells whether `sp_a` is a principal. -/
theorem budget_tells_principals :
    ¬ ∀ (env : TokenEnv) (handle : Option IssuerHandle) (db₁ db₂ : Db) (reqs : List TokenRequest),
      { db₁ with tenant := db₂.tenant, principal := db₂.principal,
                 principalSecret := db₂.principalSecret } = db₂ →
      (∀ req ∈ reqs, req.Dead env db₁ ∧ req.Dead env db₂) →
      answers env db₁ handle reqs = answers env db₂ handle reqs := by
  intro hall
  have h := hall TwoStores.env (some TwoStores.handle) TwoStores.named (Db.fresh ⟨0⟩)
    [TwoStores.guess "sp_b", TwoStores.guess "sp_a"] rfl (by
      intro req hreq
      simp only [List.mem_cons, List.not_mem_nil, or_false] at hreq
      rcases hreq with rfl | rfl
      · exact TwoStores.guess_dead "sp_b"
      · exact TwoStores.guess_dead "sp_a")
  revert h
  decide +kernel

/-- A guess at an id that both stores know. -/
theorem dead_credentials_alike_known :
    answers TwoStores.env TwoStores.named (some TwoStores.handle) [TwoStores.guess "sp_a"] =
      answers TwoStores.env
        { TwoStores.named with tenant := [⟨"default", none, ⟨0⟩, some ⟨50⟩⟩] }
        (some TwoStores.handle) [TwoStores.guess "sp_a"] := by
  refine dead_credentials_alike [TwoStores.guess "sp_a"] ?_ ?_
  · intro req hreq
    rw [List.mem_singleton.1 hreq]
    constructor
    · exact (TwoStores.guess_dead "sp_a").1
    · intro p _ principal hlive
      cases hlive
  · refine Or.inr ?_
    intro req hreq id _
    rfl

end SessionBroker
