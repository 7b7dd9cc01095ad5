/-
  The session lane (`http/session.rs`): `GET /session`, `POST` and
  `GET /session/refresh`, `POST /logout`.

  * `serve` is a handler with all it does: the map after it, the answer, the
    events of the audit record and the label of the metric;
  * `serve_cases`: an answer issues both cookies and a refresh has succeeded, or
    it issues none and nothing was minted;
  * `postRefresh_ok`: a refresh that is asked for from the page itself.

  How long a handler took is left out.
-/
import SessionBroker.RefreshMetric
import SessionBroker.ReturnTo
import SessionBroker.SessionCookies

namespace SessionBroker

/-- `ErrorCode::status`. -/
def ErrorCode.status : ErrorCode → ℕ
  | invalidSession | sessionStale | sessionExpired => 401
  | csrfRejected | notGranted => 403
  | upstreamRevoked => 409
  | badRequest | badAudience => 400
  | unavailable => 503

theorem ErrorCode.status_ne (code : ErrorCode) : code.status ≠ 200 := by
  cases code <;> decide

namespace SessionLane

open Crypto

/-! ## Login URLs -/

/-- The bytes that `urlencode` leaves. -/
def unreserved (b : UInt8) : Bool :=
  (65 ≤ b && b ≤ 90) || (97 ≤ b && b ≤ 122) || (48 ≤ b && b ≤ 57) || b == 45 || b == 95 || b == 46 || b == 126 ||
    b == 47

def hexDigit (n : ℕ) : Char := if n < 10 then Char.ofNat (48 + n) else Char.ofNat (55 + n)

/-- `urlencode`. -/
def urlencode (value : String) : String :=
  .ofList ((asBytes value).flatMap fun b =>
    if unreserved b then [Char.ofNat b.toNat] else ['%', hexDigit (b.toNat / 16), hexDigit (b.toNat % 16)])

/-- `HttpConfig::login_url`. -/
def loginUrl (http : HttpConfig) : Option String → String
  | some path => http.origin ++ http.loginPath ++ "?return_to=" ++ urlencode path
  | none => http.origin ++ http.loginPath

/-! ## Requests and answers -/

structure RefreshQuery where
  interactive : Option String := none
  returnTo : Option String := none
deriving DecidableEq, Repr

/-- `RefreshQuery::interactive`. -/
def RefreshQuery.isInteractive (query : RefreshQuery) : Bool :=
  query.interactive.any fun value => value ∈ ["1", "true", "yes"]

/-- The first value of each header but `Cookie`. -/
structure Request where
  secFetchSite : Option Bytes := none
  secFetchMode : Option Bytes := none
  origin : Option Bytes := none
  cookies : List Bytes
  query : RefreshQuery := {}
  now : Timestamp
deriving DecidableEq, Repr

inductive Body where
  | sessionMeta (m : SessionMeta)
  | error (err : ApiError)
  | loggedOut
  | empty
deriving DecidableEq, Repr

/-- What an answer does to the cookies. -/
inductive CookieChange where
  | keep
  | issue (issued : IssuedCookies)
  | clear
deriving DecidableEq, Repr

structure Response where
  status : ℕ
  body : Body
  location : Option String := none
  cookies : CookieChange := .keep
deriving DecidableEq, Repr

/-- `HeaderValue::from_str` takes it. -/
def isHeaderValue (line : String) : Bool :=
  line.toList.all fun c => (32 ≤ c.toNat && c.toNat < 127) || c.toNat = 9

/-- The values of the `Set-Cookie` headers. -/
def CookieChange.lines (config : CookieConfig) : CookieChange → List String
  | keep => []
  | issue issued => (config.issueCookies issued).filter isHeaderValue
  | clear => config.clearCookies.filter isHeaderValue

/-- The configuration, and `TokenHash::of`. -/
structure Site where
  config : CookieConfig
  tokenHash : String → TokenHash

structure Served where
  map : SessionMap
  response : Response
  audit : List AuditRow := []
  label : Option RefreshLabel := none

/-- `ApiError::into_response`. -/
def refusal (err : ApiError) : Response := ⟨err.error.status, .error err, none, .keep⟩

/-! ## Guards -/

inductive AllowDirectNavigation where
  | yes
  | no
deriving DecidableEq, Repr

/-- `require_same_origin`. -/
def guardOrigin (site : Site) (req : Request) (direct : AllowDirectNavigation) : Except ApiError Unit :=
  if req.secFetchSite.bind headerText = some "none" ∧ direct = .yes then .ok ()
  else requireSameOrigin req.secFetchSite req.origin site.config.origin

/-- `is_navigation`. -/
def isNavigation (req : Request) : Bool := req.secFetchMode.bind headerText = some "navigate"

/-- `presented`. -/
def presented (site : Site) (req : Request) : Option TokenHash :=
  (cookie req.cookies site.config.sessionCookieName).map site.tokenHash

/-! ## Handlers -/

/-- `unauthenticated`. -/
def unauthenticated (http : HttpConfig) (returnTo : Option String) : ApiError :=
  ⟨.invalidSession, "no session cookie presented", some (loginUrl http returnTo)⟩

/-- `map_denial`. -/
def mapDenial (http : HttpConfig) (returnTo : Option String) : RefreshDenied → ApiError
  | .unknown => unauthenticated http returnTo
  | .retired _ genNo =>
    ⟨.invalidSession, s!"generation {genNo} is past its grace window", some (loginUrl http returnTo)⟩
  | .expired _ reason => expiredError reason http

variable (site : Site) (m : SessionMap) (req : Request) (token : SessionToken)

/-- `get_session`. -/
def getSession : Served :=
  match presented site req with
  | none => ⟨m, refusal (unauthenticated site.config.toHttpConfig none), [], none⟩
  | some hash =>
    match m.resolve hash req.now with
    | .active .. | .staleRefreshable .. =>
      match m.metaFor hash with
      | some sm => ⟨m, ⟨200, .sessionMeta sm, none, .keep⟩, [], none⟩
      | none => ⟨m, refusal (unauthenticated site.config.toHttpConfig none), [], none⟩
    | other => ⟨m, refusal (denial other site.config.toHttpConfig), [], none⟩

/-- The refresh of both routes. -/
def refresh : Handled := handleRefresh m (presented site req) [] token req.now

/-- `post_refresh`. -/
def postRefresh : Served :=
  match guardOrigin site req .no with
  | .error err => ⟨m, refusal err, [], none⟩
  | .ok () =>
    let returnTo := safeReturnTo req.query.returnTo
    let handled := refresh site m req token
    let response := match handled.outcome with
      | .ok issued => ⟨200, .sessionMeta issued.sessionMeta, none, .issue issued⟩
      | .error denied => refusal (mapDenial site.config.toHttpConfig returnTo denied)
    ⟨handled.map, response, handled.anomaly.toList, handled.label⟩

/-- `get_refresh`. -/
def getRefresh : Served :=
  if isNavigation req = false then
    ⟨m, refusal ⟨.badRequest, "the GET form of refresh is for top-level navigation; use POST", none⟩, [], none⟩
  else
    match guardOrigin site req .yes with
    | .error err => ⟨m, refusal err, [], none⟩
    | .ok () =>
      let returnTo := safeReturnTo req.query.returnTo
      let handled := refresh site m req token
      let response := match handled.outcome with
        | .ok issued =>
          ⟨303, .sessionMeta issued.sessionMeta, some (redirect (returnTo.getD "/")), .issue issued⟩
        | .error denied =>
          if req.query.isInteractive then
            -- a login URL that is no header value makes the answer an error
            if isHeaderValue (loginUrl site.config.toHttpConfig returnTo) then
              ⟨303, .empty, some (loginUrl site.config.toHttpConfig returnTo), .clear⟩
            else ⟨500, .empty, none, .clear⟩
          else refusal (mapDenial site.config.toHttpConfig returnTo denied)
      ⟨handled.map, response, handled.anomaly.toList, handled.label⟩

/-- The event of a logout. -/
def loggedOutRow (sid : Sid) (subject : Option String) (now : Timestamp) : AuditRow where
  at_ := now
  action := "session.logged_out"
  outcome := "success"
  actorKind := "user"
  actorId := none
  subject := subject
  sid := some sid.id
  custodyId := none
  keyId := none
  reason := none
  clientIpPrefix := none
  detail := none

/-- `post_logout`. -/
def postLogout : Served :=
  match guardOrigin site req .no with
  | .error err => ⟨m, refusal err, [], none⟩
  | .ok () =>
    let response : Response := ⟨200, .loggedOut, none, .clear⟩
    match (presented site req).bind fun hash => (m.index hash).map (hash, ·) with
    | none => ⟨m, response, [], none⟩
    | some (hash, sid) =>
      let killed := m.tombstoneSession sid req.now
      let sub := (m.metaFor hash).map (·.sub)
      ⟨killed.1, response, if killed.2 then [loggedOutRow sid sub req.now] else [], none⟩

inductive Route where
  | session
  | postRefresh
  | getRefresh
  | logout
deriving DecidableEq, Repr

def serve : Route → Served
  | .session => getSession site m req
  | .postRefresh => postRefresh site m req token
  | .getRefresh => getRefresh site m req token
  | .logout => postLogout site m req

/-! ## What an answer tells -/

section
variable {site m req token}

theorem handleRefresh_cases (m : SessionMap) (token : SessionToken) (presented : Option TokenHash)
    (now : Timestamp) :
    (∃ hash issued, presented = some hash ∧ (m.refresh hash token now).2 = .ok issued ∧
      (handleRefresh m presented [] token now).outcome = .ok issued ∧
      (handleRefresh m presented [] token now).map = (m.refresh hash token now).1) ∨
    ∃ denied, (handleRefresh m presented [] token now).outcome = .error denied ∧
      (handleRefresh m presented [] token now).map = m ∧
      ∀ hash, presented = some hash → (m.resolve hash now).refreshable = false := by
  cases presented with
  | none => exact Or.inr ⟨_, rfl, rfl, nofun⟩
  | some hash =>
    have houtcome : (handleRefresh m (some hash) [] token now).outcome = (m.refresh hash token now).2 := rfl
    have hmap : (handleRefresh m (some hash) [] token now).map = (m.refresh hash token now).1 := rfl
    rw [houtcome, hmap]
    cases husable : (m.resolve hash now).refreshable with
    | true =>
      obtain ⟨m', issued, heq⟩ := (SessionMap.refresh_ok_iff token).2 husable
      rw [heq]
      exact Or.inl ⟨hash, issued, rfl, congrArg Prod.snd heq, rfl, (congrArg Prod.fst heq).symm⟩
    | false =>
      obtain ⟨denied, heq⟩ := SessionMap.refresh_denied husable token
      rw [heq]
      refine Or.inr ⟨denied, rfl, rfl, ?_⟩
      rintro _ ⟨⟩
      exact husable

/-- **What an answer tells of the sessions.** -/
theorem serve_cases (route : Route) :
    (∃ hash issued, presented site req = some hash ∧ (m.refresh hash token req.now).2 = .ok issued ∧
      (serve site m req token route).response.cookies = .issue issued ∧
      (serve site m req token route).map = (m.refresh hash token req.now).1) ∨
    ((serve site m req token route).response.cookies = .keep ∨
      (serve site m req token route).response.cookies = .clear) ∧
      ((serve site m req token route).map = m ∨
        ∃ sid, (serve site m req token route).map = (m.tombstoneSession sid req.now).1) := by
  cases route with
  | session =>
    refine Or.inr ?_
    have hsession : (getSession site m req).response.cookies = .keep ∧ (getSession site m req).map = m := by
      unfold getSession
      split
      · exact ⟨rfl, rfl⟩
      · split <;> try split
        all_goals exact ⟨rfl, rfl⟩
    exact ⟨Or.inl hsession.1, Or.inl hsession.2⟩
  | postRefresh =>
    unfold serve postRefresh
    dsimp only
    cases guardOrigin site req .no with
    | error err => exact Or.inr ⟨Or.inl rfl, Or.inl rfl⟩
    | ok =>
      rcases handleRefresh_cases m token (presented site req) req.now with
        ⟨hash, issued, hpresented, hissued, houtcome, hmap⟩ | ⟨denied, houtcome, hmap, -⟩
      · exact Or.inl ⟨hash, issued, hpresented, hissued, by simp only [refresh, houtcome], hmap⟩
      · exact Or.inr ⟨Or.inl (by simp only [refresh, houtcome, refusal]), Or.inl hmap⟩
  | getRefresh =>
    unfold serve getRefresh
    dsimp only
    by_cases hnavigates : isNavigation req = false
    · rw [if_pos hnavigates]
      exact Or.inr ⟨Or.inl rfl, Or.inl rfl⟩
    · rw [if_neg hnavigates]
      cases guardOrigin site req .yes with
      | error err => exact Or.inr ⟨Or.inl rfl, Or.inl rfl⟩
      | ok =>
        rcases handleRefresh_cases m token (presented site req) req.now with
          ⟨hash, issued, hpresented, hissued, houtcome, hmap⟩ | ⟨denied, houtcome, hmap, -⟩
        · exact Or.inl ⟨hash, issued, hpresented, hissued, by simp only [refresh, houtcome], hmap⟩
        · refine Or.inr ⟨?_, Or.inl hmap⟩
          simp only [refresh, houtcome]
          split
          · split <;> exact Or.inr rfl
          · exact Or.inl rfl
  | logout =>
    unfold serve postLogout
    dsimp only
    cases guardOrigin site req .no with
    | error err => exact Or.inr ⟨Or.inl rfl, Or.inl rfl⟩
    | ok =>
      cases (presented site req).bind fun hash => (m.index hash).map (hash, ·) with
      | none => exact Or.inr ⟨Or.inr rfl, Or.inl rfl⟩
      | some found => exact Or.inr ⟨Or.inr rfl, Or.inr ⟨found.2, rfl⟩⟩

/-- **A refresh that the page asks for** is answered by the verdict on its
    cookie. -/
theorem postRefresh_ok (horigin : req.secFetchSite.bind headerText = some "same-origin") :
    (postRefresh site m req token).response.status = 200 ↔
      ∃ hash, presented site req = some hash ∧ (m.resolve hash req.now).refreshable = true := by
  have hguard : guardOrigin site req .no = .ok () := by
    rw [guardOrigin, if_neg (by simp), requireSameOrigin, horigin]
    rfl
  unfold postRefresh
  rw [hguard]
  dsimp only
  rcases handleRefresh_cases m token (presented site req) req.now with
    ⟨hash, issued, hpresented, hissued, houtcome, -⟩ | ⟨denied, houtcome, -, hdenied⟩
  · have hrefreshable := SessionMap.refresh_outcome_ok_iff.1 ⟨issued, hissued⟩
    simp only [refresh, houtcome, true_iff]
    exact ⟨hash, hpresented, hrefreshable⟩
  · simp only [refresh, houtcome]
    refine iff_of_false (ErrorCode.status_ne _) ?_
    rintro ⟨hash, hpresented, hrefreshable⟩
    rw [hdenied hash hpresented] at hrefreshable
    cases hrefreshable

end

end SessionLane

end SessionBroker
