/-
  The desktop sign-in handoff (`http/desktop.rs`, `admin/handoff.rs`).

  * A run is a list of `HandoffOp`: a login or a failure that names an attempt,
    a request at `/auth/desktop`, a redemption.  The broker's sessions, the
    admin tables and the signer are what each request finds;
  * the iteration order of a map is free: each step says where a key stands in
    it;
  * `Promised` is what the handoff promises of a step, and `Spared` the
    condition under which it keeps all of it.
-/
import Mathlib.Data.Prod.Lex
import Mathlib.Data.String.Basic
import SessionBroker.Lib.Keyed
import SessionBroker.Lib.Run
import SessionBroker.ProviderAdmin
import SessionBroker.UserToken

namespace SessionBroker

open Table Runs

namespace Desktop

/-! ## What is held -/

def attemptTtlSecs : ℤ := 300

/-- `ATTEMPTS_HELD`. -/
def attemptsHeld : ℕ := 64

def attemptLen : ℕ := 43

def pathPrefix : String := "/auth/desktop?attempt="

/-- The answer `POST /admin/desktop-handoff` gives for a finished attempt. -/
inductive Outcome where
  | complete (accessToken : String) (expiresIn : ℕ) (tenant : String) (roles : List String)
  | failed (error detail hint : String)
deriving DecidableEq, Repr

/-- What a map has for an attempt, and since when. -/
structure Holding (ν : Type) where
  attempt : String
  value : ν
  at_ : ℤ
deriving DecidableEq, Repr

/-- A `HashMap` keyed by attempt. -/
abbrev Attempts (ν : Type) := Keyed (Holding.attempt (ν := ν))

/-- `Held`: the session each attempt's own login created, and how each attempt
    ended. -/
structure Held where
  logins : Attempts String
  outcomes : Attempts Outcome

section
variable {ν : Type}

/-- Within its lifetime.  The addition wraps, as it does in a release build. -/
def Holding.live (now : ℤ) (e : Holding ν) : Bool := now < Int.bmod (e.at_ + attemptTtlSecs) (2 ^ 64)

/-- The order of `min_by_key`: by age, and among equals the iteration order of
    the map. -/
def Holding.age (order : String → ℕ) (e : Holding ν) : ℤ ×ₗ ℕ ×ₗ String :=
  toLex (e.at_, toLex (order e.attempt, e.attempt))

/-- `trim`. -/
def trim (order : String → ℕ) (now : ℤ) (map : Attempts ν) : Attempts ν :=
  let kept := map.retain (Holding.live now)
  Keyed.evict attemptsHeld (Holding.age order) kept.rows.length kept

end

/-- `is_attempt`. -/
def isAttempt (value : String) : Bool :=
  value.utf8ByteSize = attemptLen && value.toList.all fun c => c.isAlphanum || c = '-' || c = '_'

/-- `attempt_of`. -/
def attemptOf (returnTo : Option String) : Option String :=
  (returnTo.bind (stripPrefix pathPrefix)).filter isAttempt

/-- `note_login`. -/
def noteLogin (order : String → ℕ) (attempt sid : String) (now : ℤ) (held : Held) : Held :=
  { held with logins := (trim order now held.logins).insert ⟨attempt, sid, now⟩ }

/-- `finish`. -/
def finish (order : String → ℕ) (attempt : String) (outcome : Outcome) (now : ℤ) (held : Held) :
    Held × Bool :=
  let outcomes := trim order now held.outcomes
  if outcomes.contains attempt then ({ held with outcomes }, false)
  else
    ({ logins := held.logins.remove attempt
       outcomes := outcomes.insert ⟨attempt, outcome, now⟩ }, true)

/-- `redeem`. -/
def redeem (attempt : String) (now : ℤ) (held : Held) : Held × Option Outcome :=
  match held.outcomes.find? attempt with
  | none => (held, none)
  | some e =>
    ({ held with outcomes := held.outcomes.remove attempt },
      if e.live now then some e.value else none)

/-! ## Failures -/

/-- `BY_DETAIL`. -/
def byDetail : List (String × String) :=
  [("AADSTS7000215", "Entra rejected the client secret. Save the secret's Value, not its Secret ID, " ++
      "in Admin > Authentication."),
    ("AADSTS7000222", "The client secret has expired. Create a new one in Entra and save its Value " ++
      "in Admin > Authentication."),
    ("AADSTS700025", "Entra treats this app as a public client. Register the redirect URI under the " ++
      "Web platform, remove it from Mobile and desktop or Single-page application, and set Allow " ++
      "public client flows to No."),
    ("AADSTS50011", "The redirect URI is not registered on the app. Copy it from Admin > " ++
      "Authentication into the provider exactly."),
    ("AADSTS65001", "The app needs consent. Ask a tenant administrator to grant it."),
    ("AADSTS700016", "The client ID was not found in this tenant. Check the client ID and tenant ID."),
    ("access_denied", "Access was declined at the provider. Sign in again and accept, or ask an " ++
      "administrator for access."),
    ("invalid_client", "The provider rejected the client credentials. Check the client ID and secret " ++
      "in Admin > Authentication."),
    ("redirect_uri", "The redirect URI does not match. Copy it from Admin > Authentication into the " ++
      "provider exactly.")]

/-- `failure_hint`. -/
def failureHint (code detail : String) : String :=
  match byDetail.find? fun known => known.1.toList <:+: detail.toList with
  | some (_, hint) => hint
  | none =>
    if code = "no_txn_cookie" ∨ code = "unknown_txn" then
      "This sign-in attempt was not found. Start again from the sign-in link, in one browser and on " ++
        "one host name (localhost and 127.0.0.1 hold separate cookies)."
    else if code = "not_granted" then
      "This person signed in but holds no grant here. An administrator can grant a role in Admin > " ++
        "Authentication."
    else if code = "txn_expired" then "This sign-in attempt took too long. Start again."
    else if code = "state_mismatch" ∨ code = "iss_mismatch" then
      "This response does not belong to the sign-in that was started. Start again; if it repeats, " ++
        "tell an administrator."
    else if code = "invalid_id_token" then
      "The provider's identity token failed verification. Check the issuer and client ID, and the " ++
        "machine's clock."
    else if code = "provider_disabled" ∨ code = "provider_gone" then
      "This provider is no longer available. Ask an administrator."
    else "Start again; if it repeats, give an administrator this message."

/-- The outcome `note_failure` records. -/
def failure (code detail : String) : Outcome :=
  .failed code (.ofList (detail.toList.take 800)) (failureHint code detail)

/-! ## The two routes -/

/-- SHA-256 of a cookie, and of a verifier as an attempt has it; the
    configuration of both lanes. -/
structure DesktopEnv where
  hash : String → TokenHash
  challenge : String → String
  http : HttpConfig
  issuer : Option IssuerSettings
  adminKey : Option String

/-- The characters `escape_html` replaces; the last two are the quotes. -/
def escapes : List (Char × String) :=
  [('&', "&amp;"), ('<', "&lt;"), ('>', "&gt;"), (Char.ofNat 34, "&quot;"), (Char.ofNat 39, "&#39;")]

/-- `escape_html`. -/
def escapeHtml (text : String) : String :=
  .join (text.toList.map fun c => (escapes.lookup c).getD c.toString)

structure Page where
  status : ℕ
  contentType : String
  cacheControl : String
  body : String
deriving DecidableEq, Repr

/-- `page`. -/
def page (status : ℕ) (title text : String) : Page where
  status
  contentType := "text/html; charset=utf-8"
  cacheControl := "no-store"
  body := "<!doctype html><html lang=\"en\"><meta charset=\"utf-8\"><title>" ++ escapeHtml title ++
    "</title><body style=\"font:15px system-ui;max-width:42rem;margin:4rem auto;padding:0 1rem\">" ++
    "<h1 style=\"font-size:1.4rem\">" ++ escapeHtml title ++ "</h1><p>" ++ escapeHtml text ++
    "</p></body></html>"

/-- A request at `/auth/desktop`, and what it finds: the sessions, the three
    reads and the signer of the mint, the clock here and at the mint. -/
structure DesktopRequest where
  attempt : Option String
  cookies : List Bytes
  sessions : SessionMap
  reads : GrantReads
  signWithKid : UserClaims → Option (String × String)
  now : Timestamp
  mintAt : Timestamp
  jti : String

/-- A redemption: the first `Authorization`, the answer of the rate limiter
    where it refuses, and what the body parses to. -/
structure RedeemRequest where
  authorization : Option Bytes
  limited : Option AdminRefusal
  body : Option (String × String)
  now : Timestamp

/-- One step. -/
inductive HandoffOp where
  | login (returnTo : Option String) (sid : String) (now : Timestamp) (order : String → ℕ)
  | failure (returnTo : Option String) (code detail : String) (now : Timestamp) (order : String → ℕ)
  | desktop (req : DesktopRequest) (order : String → ℕ)
  | redeem (req : RedeemRequest)

/-- What happens to an attempt. -/
inductive Event where
  | loggedIn (e : Holding String)
  | ended (e : Holding Outcome) (recorded : Bool)
  | handed (attempt : String) (outcome : Outcome)
deriving DecidableEq, Repr

/-- What a step leaves and answers. -/
structure Effect where
  held : Held
  event : Option Event
  page : Option Page := none
  answer : Option (Except AdminRefusal (Option Outcome)) := none

/-- An ending for an attempt. -/
def ending (order : String → ℕ) (attempt : String) (outcome : Outcome) (now : ℤ) (held : Held)
    (page : Bool → Option Page) : Effect :=
  let (held, recorded) := finish order attempt outcome now held
  { held, event := some (.ended ⟨attempt, outcome, now⟩ recorded), page := page recorded }

def notRecognised : Page :=
  page 400 "Sign-in not recognised" "This link is not one the app made. Start again from the app."

def refused : Page :=
  page 401 "Not signed in"
    "This page only completes a sign-in the app started. Start again from the app."

/-- The checks of `desktop`: the attempt, and the session its own login
    created. -/
def desktopSession (env : DesktopEnv) (held : Held) (req : DesktopRequest) :
    Except Page (String × SessionMeta) :=
  match req.attempt.filter isAttempt with
  | none => .error notRecognised
  | some attempt =>
    match cookie req.cookies (sessionCookieName env.http.secure) with
    | none => .error refused
    | some value =>
      match req.sessions.resolve (env.hash value) req.now with
      | .active .. =>
        match req.sessions.metaFor (env.hash value) with
        | none => .error refused
        | some sm =>
          if (held.logins.find? attempt).any fun e => e.value = sm.sid && e.live req.now.secs then
            .ok (attempt, sm)
          else .error refused
      | _ => .error refused

/-- How the attempt of such a session ends, and the page for an ending that is
    recorded and for one that comes second. -/
def desktopOutcome (env : DesktopEnv) (req : DesktopRequest) (sm : SessionMeta) :
    Outcome × (Bool → Page) :=
  match env.issuer with
  | none =>
    (failure "lane_disabled" "The broker's token issuer is not configured.", fun _ =>
      page 501 "Sign-in failed" "The broker's token issuer is not configured. Return to the app.")
  | some settings =>
    match settings.audiences with
    | [audience] =>
      match mint ⟨env.hash, req.signWithKid⟩ settings req.reads sm audience settings.defaultUserTenant
          req.mintAt req.jti with
      | .ok granted =>
        (.complete granted.accessToken granted.expiresIn granted.tenant granted.roles, fun recorded =>
          if recorded then
            page 200 "Signed in" "You are signed in. Return to the app; you can close this tab."
          else
            page 409 "Sign-in not recognised"
              "This sign-in has already ended. Start again from the app.")
      | .error err =>
        (failure err.error.name err.detail, fun _ =>
          page 403 "Sign-in failed"
            (failureHint err.error.name err.detail ++ " Return to the app for details."))
    | _ =>
      (failure "lane_disabled" "The desktop handoff needs exactly one issuer audience.", fun _ =>
        page 501 "Sign-in failed"
          "The desktop handoff needs exactly one issuer audience. Return to the app.")

/-- `desktop`. -/
def desktop (env : DesktopEnv) (order : String → ℕ) (held : Held) (req : DesktopRequest) : Effect :=
  match desktopSession env held req with
  | .error page => { held, event := none, page := some page }
  | .ok (attempt, sm) =>
    let (outcome, page) := desktopOutcome env req sm
    ending order attempt outcome req.now.secs held fun recorded => some (page recorded)

/-- `authorised`. -/
def authorised (env : DesktopEnv) (req : RedeemRequest) : Except AdminRefusal Unit :=
  match env.adminKey with
  | none => .error ⟨501, "lane_disabled", none,
      "No admin_api_key is configured, so the admin lane is disabled."⟩
  | some expected =>
    if ((req.authorization.bind headerText).bind (stripPrefix "Bearer ")) = some expected then .ok ()
    else .error (req.limited.getD ⟨401, "unauthorised", none, "A valid admin API key is required."⟩)

/-- `verifier_matches`. -/
def verifierMatches (env : DesktopEnv) (attempt verifier : String) : Bool :=
  isAttempt attempt && env.challenge verifier = attempt

/-- The handler of `POST /admin/desktop-handoff`; no outcome is a pending one. -/
def redeemHandler (env : DesktopEnv) (held : Held) (req : RedeemRequest) : Effect :=
  match authorised env req with
  | .error refusal => { held, event := none, answer := some (.error refusal) }
  | .ok _ =>
    match req.body with
    | none => { held, event := none, answer := some (.error (.bad "bad_request"
        "The body must be a JSON object with the documented fields and no others.")) }
    | some (attempt, verifier) =>
      if verifierMatches env attempt verifier then
        let (held, outcome) := redeem attempt req.now.secs held
        { held, event := outcome.map (.handed attempt), answer := some (.ok outcome) }
      else { held, event := none, answer := some (.error ⟨403, "bad_verifier", none,
        "that verifier does not belong to that attempt"⟩) }

/-! ## Runs -/

def HandoffOp.now : HandoffOp → Timestamp
  | login _ _ now _ => now
  | failure _ _ _ now _ => now
  | desktop req _ => req.now
  | redeem req => req.now

/-- The iteration order of the map that is trimmed. -/
def HandoffOp.order : HandoffOp → String → ℕ
  | login _ _ _ order => order
  | failure _ _ _ _ order => order
  | desktop _ order => order
  | redeem _ => fun _ => 0

def step (env : DesktopEnv) (held : Held) : HandoffOp → Effect
  | .login returnTo sid now order =>
    match attemptOf returnTo with
    | none => { held, event := none }
    | some attempt =>
      { held := noteLogin order attempt sid now.secs held
        event := some (.loggedIn ⟨attempt, sid, now.secs⟩) }
  | .failure returnTo code detail now order =>
    match attemptOf returnTo with
    | none => { held, event := none }
    | some attempt => ending order attempt (failure code detail) now.secs held fun _ => none
  | .desktop req order => desktop env order held req
  | .redeem req => redeemHandler env held req

/-- The two maps, and what has happened to the attempts. -/
structure Desk where
  held : Held
  events : List Event

def Desk.next (env : DesktopEnv) (d : Desk) (op : HandoffOp) : Desk :=
  let effect := step env d.held op
  ⟨effect.held, d.events ++ effect.event.toList⟩

/-- The desk after the steps `ops`. -/
def desk (env : DesktopEnv) (ops : List HandoffOp) : Desk :=
  run (Desk.next env) ⟨⟨Keyed.empty, Keyed.empty⟩, []⟩ ops

/-- The attempt that a step ends, if it ends one. -/
def HandoffOp.ends (env : DesktopEnv) (held : Held) : HandoffOp → Option String
  | failure returnTo _ _ _ _ => attemptOf returnTo
  | desktop req _ => (desktopSession env held req).toOption.map Prod.fst
  | _ => none

/-- In this step the token was signed for that session. -/
def HandoffOp.Signed (op : HandoffOp) (sid token : String) : Prop :=
  ∃ req order, op = .desktop req order ∧
    ∃ claims kid, req.signWithKid claims = some (kid, token) ∧ claims.sid = sid

/-- The login, if it is one of the attempt. -/
def Event.login? (attempt : String) : Event → Option (Holding String)
  | loggedIn e => if e.attempt = attempt then some e else none
  | _ => none

/-- What is left to hand out for the attempt, where the event settles that. -/
def Event.leaves (attempt : String) : Event → Option (Option (Holding Outcome))
  | ended e recorded => if recorded = true ∧ e.attempt = attempt then some (some e) else none
  | handed a _ => if a = attempt then some none else none
  | loggedIn _ => none

/-- What the handoff promises of a step. -/
structure Promised (env : DesktopEnv) (d : Desk) (op : HandoffOp) : Prop where
  /-- A Complete outcome is minted for the session of the attempt's latest
      login, within the lifetime of the attempt. -/
  minted : ∀ e recorded token expiresIn tenant roles,
    (step env d.held op).event = some (.ended e recorded) →
    e.value = .complete token expiresIn tenant roles →
    ∃ sid loginAt, op.Signed sid token ∧
      (d.events.filterMap (·.login? e.attempt)).getLast? = some ⟨e.attempt, sid, loginAt⟩ ∧
      op.now.secs < loginAt + attemptTtlSecs
  /-- What is handed out was recorded within its lifetime, and has not been
      handed out since. -/
  handed : ∀ attempt outcome, (step env d.held op).event = some (.handed attempt outcome) →
    ∃ endedAt,
      (d.events.filterMap (·.leaves attempt)).getLast? = some (some ⟨attempt, outcome, endedAt⟩) ∧
      op.now.secs < endedAt + attemptTtlSecs
  /-- A second ending does not replace an outcome that is held. -/
  stands : ∀ e ∈ d.held.outcomes.rows, e.live op.now.secs = true →
    ∀ e' recorded, (step env d.held op).event = some (.ended e' recorded) → e'.attempt = e.attempt →
      recorded = false ∧ e ∈ (step env d.held op).held.outcomes.rows
  bounded : (step env d.held op).held.logins.rows.length ≤ attemptsHeld ∧
    (step env d.held op).held.outcomes.rows.length ≤ attemptsHeld

/-- The outcome of an attempt that ends again is not the one to make room:
    there is room, or another one is older. -/
def Spared (env : DesktopEnv) (held : Held) (op : HandoffOp) : Prop :=
  ∀ attempt, op.ends env held = some attempt →
    ∀ e ∈ held.outcomes.rows, e.attempt = attempt → e.live op.now.secs = true →
      (held.outcomes.retain (Holding.live op.now.secs)).rows.length < attemptsHeld ∨
        ∃ other ∈ held.outcomes.rows, other.live op.now.secs = true ∧
          other.age op.order < e.age op.order

end Desktop

end SessionBroker
