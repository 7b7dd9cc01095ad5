/-
  `POST /internal/token` (`http/internal.rs`): a backend trades the session
  token of a user for the upstream access token.

  * `exchangeInner` reads the key table, the sessions and the custody row in
    the handler's order; `exchange` counts a wrong key against the caller's
    budget.  Metrics and audit are left out;
  * `exchange_granted_iff`: who is granted what.
-/
import SessionBroker.CustodyRows
import SessionBroker.Limiter
import SessionBroker.Map
import SessionBroker.Text

namespace SessionBroker

open Table

/-! ## Reads of the store -/

/-- `find_live_api_key`: the id of the key. -/
def Db.findLiveApiKey (db : Db) (keyHash : Bytes) : Option String :=
  (db.apiKey.find? fun k => k.keyHash = keyHash ∧ k.revokedAt = none).map (·.keyId)

/-- `load_custody`: an error where a token does not open. -/
def Db.loadCustody (ring : KeyRing) (db : Db) (custody : CustodyId) :
    Except Unit (Option FullCustodyRow) :=
  match db.findCustody custody with
  | none => .ok none
  | some c =>
    match c.tokens ring with
    | (some refreshTok, some accessTok) => .ok (some
        { custodyId := c.custodyId
          sub := c.sub
          refreshTok
          accessTok
          accessExp := c.accessExp
          scope := c.scope
          status := c.status
          nextRefresh := c.nextRefresh
          failCount := c.failCount
          updatedAt := c.updatedAt
          providerId := c.providerId })
    | _ => .error ()

namespace Internal

/-! ## The handler -/

/-- What the lane calls outside the repository. -/
structure Env where
  checked : Bool
  sha256 : String → Bytes
  tokenHash : String → TokenHash

/-- `InternalState`. -/
structure InternalState where
  sessions : SessionMap
  db : Db
  ring : KeyRing
  apiKey : Option String
  limiter : Option Limiter

/-- One request, the clock it reads and whether the store answers it; `client`
    is the peer that the limiter counts. -/
structure Request where
  authorization : Option Bytes
  sessionToken : String
  now : Timestamp
  client : Option String
  instant : ℕ
  keyReadFails : Bool
  rowReadFails : Bool
deriving DecidableEq, Repr

structure TokenResponse where
  accessToken : String
  sub : String
  expiresAt : ℤ
  scope : Option String
deriving DecidableEq, Repr

structure Refusal where
  status : ℕ
  error : String
  detail : String
deriving DecidableEq, Repr

inductive BackendAuth where
  | issued (keyId : String)
  | bootstrap
  | disabled
  | refused
deriving DecidableEq, Repr

/-- What `exchange_inner` leaves behind for the audit. -/
structure Seen where
  keyId : Option String
  sid : Option String
  subject : Option String
deriving DecidableEq, Repr

/-- `key_matches`, on the bytes. -/
def bytesMatch (a b : Bytes) : Bool :=
  a.length = b.length && (List.zipWith (· ^^^ ·) a b).foldl (· ||| ·) 0 == 0

def keyMatches (presented expected : String) : Bool :=
  bytesMatch presented.toUTF8.data.toList expected.toUTF8.data.toList

/-- The key in the `Authorization` header. -/
def Request.presented (req : Request) : Option String :=
  (req.authorization.bind headerText).bind (stripPrefix "Bearer ")

/-- `authenticate_backend`. -/
def authenticateBackend (env : Env) (s : InternalState) (req : Request) (presented : String) :
    BackendAuth :=
  match if req.keyReadFails then none else s.db.findLiveApiKey (env.sha256 presented) with
  | some keyId => .issued keyId
  | none =>
    match s.apiKey with
    | some expected => if keyMatches presented expected then .bootstrap else .refused
    | none => .disabled

def missingApiKey : Refusal :=
  ⟨401, "missing_api_key",
    "This lane requires a broker API key in addition to a session token."⟩

def laneDisabled : Refusal :=
  ⟨501, "lane_disabled",
    "No broker API keys are configured, so the internal token lane is disabled."⟩

def badApiKey : Refusal := ⟨401, "bad_api_key", "The broker API key was not recognised."⟩

def notActive : Refusal :=
  ⟨401, "session_not_active",
    "The presented session token does not authenticate resource access."⟩

def upstreamRevoked : Refusal :=
  ⟨503, "upstream_revoked", "The upstream grant behind this session has been revoked."⟩

def custodyUnavailable (detail : String) : Refusal := ⟨503, "custody_unavailable", detail⟩

/-- `exchange_inner` past the custody row. -/
def respond (now : Timestamp) (row : FullCustodyRow) : Except Refusal TokenResponse :=
  if row.accessExp ≤ now then
    .error (custodyUnavailable
      "The custodied access token has expired and has not yet been renewed.")
  else match fromUtf8 row.accessTok with
    | none => .error (custodyUnavailable "The stored access token could not be decoded.")
    | some accessToken => .ok ⟨accessToken, row.sub, row.accessExp.secs, row.scope⟩

/-- The custody row of the session, and the answer from it. -/
def fromCustody (s : InternalState) (req : Request) (custody : CustodyId) :
    Except Refusal TokenResponse :=
  match if req.rowReadFails then .error () else s.db.loadCustody s.ring custody with
  | .ok (some row) => respond req.now row
  | .ok none => .error (custodyUnavailable "No upstream grant is held for this session.")
  | .error () => .error (custodyUnavailable "The upstream grant could not be read.")

/-- The half of `exchange_inner` about the user, and whose session it found. -/
def fromSession (s : InternalState) (req : Request) (hash : TokenHash) :
    Option String × Except Refusal TokenResponse :=
  if (s.sessions.resolve hash req.now).authenticates = false then (none, .error notActive)
  else match s.sessions.metaFor hash with
    | none => (none, .error notActive)
    | some sm =>
      (some sm.sub, match s.sessions.custodyFor hash with
        | none => .error notActive
        | some custody =>
          if sm.custody = .dead then .error upstreamRevoked else fromCustody s req custody)

/-- `exchange_inner`. -/
def exchangeInner (env : Env) (s : InternalState) (req : Request) :
    Seen × Except Refusal TokenResponse :=
  let hash := env.tokenHash req.sessionToken
  let onward (keyId : Option String) :=
    let (subject, answer) := fromSession s req hash
    (⟨keyId, (s.sessions.index hash).map (·.id), subject⟩, answer)
  match req.presented with
  | none => (⟨none, none, none⟩, .error missingApiKey)
  | some presented =>
    match authenticateBackend env s req presented with
    | .issued keyId => onward (some keyId)
    | .bootstrap => onward none
    | .disabled => (⟨none, none, none⟩, .error laneDisabled)
    | .refused => (⟨none, none, none⟩, .error badApiKey)

inductive Reply where
  | granted (response : TokenResponse)
  | refused (refusal : Refusal)
  | limited (retryAfterSecs : ℕ)
deriving DecidableEq, Repr

/-- `exchange`: the reply, and the limiter after it; no reply where the limiter
    panics. -/
def exchange (env : Env) (s : InternalState) (req : Request) : Option Reply × Option Limiter :=
  match (exchangeInner env s req).2 with
  | .ok response => (some (.granted response), s.limiter)
  | .error refusal =>
    if refusal.error = "bad_api_key" ∨ refusal.error = "missing_api_key" then
      match s.limiter, req.client with
      | some limiter, some client =>
        match limiter.checkAt env.checked ("backend_auth:" ++ client) req.instant with
        | (some .allow, limiter) => (some (.refused refusal), some limiter)
        | (some (.deny retryAfter), limiter) =>
          (some (.limited (max (retryAfter / 1000000000) 1)), some limiter)
        | (none, limiter) => (none, some limiter)
      | limiter, _ => (some (.refused refusal), limiter)
    else (some (.refused refusal), s.limiter)

/-! ## Who is granted what -/

/-- The header carries the key. -/
def Request.Carries (req : Request) (key : String) : Prop :=
  ∃ value text, req.authorization = some value ∧ headerText value = some text ∧
    text = "Bearer " ++ key

/-- The request carries a live issued key, or the bootstrap key. -/
def InternalState.Trusts (env : Env) (s : InternalState) (req : Request) : Prop :=
  ∃ key, req.Carries key ∧
    ((∃ k ∈ s.db.apiKey, k.keyHash = env.sha256 key ∧ k.revokedAt = none) ∨ s.apiKey = some key)

/-- The row of the custody opens, its access token is good, and the answer is
    what the row holds. -/
def InternalState.Holds (s : InternalState) (custody : CustodyId) (now : Timestamp)
    (response : TokenResponse) : Prop :=
  ∃ c refreshTok accessTok accessToken, s.db.findCustody custody = some c ∧
    c.tokens s.ring = (some refreshTok, some accessTok) ∧ now < c.accessExp ∧
    fromUtf8 accessTok = some accessToken ∧
    response = ⟨accessToken, c.sub, c.accessExp.secs, c.scope⟩

/-- The token belongs to an active session whose custody is alive, and the
    answer is what that custody's row holds. -/
def InternalState.Backs (s : InternalState) (hash : TokenHash) (now : Timestamp)
    (response : TokenResponse) : Prop :=
  ∃ sid e, s.sessions.index hash = some sid ∧ s.sessions.sessions sid = some e ∧
    (∃ sid' genNo newest, s.sessions.resolve hash now = .active sid' genNo newest) ∧
    e.custodyStatus ≠ .dead ∧ s.Holds e.custody now response

section
variable {env : Env} {s : InternalState} {req : Request} {hash : TokenHash} {now : Timestamp}
  {response : TokenResponse}

/-- The comparison that does not stop early finds the same differences. -/
theorem bytesMatch_iff {a b : Bytes} : bytesMatch a b = true ↔ a = b := by
  have hor : ∀ (l : Bytes) (d : UInt8), l.foldl (· ||| ·) d = 0 ↔ d = 0 ∧ ∀ x ∈ l, x = 0 := by
    intro l
    induction l with
    | nil => simp
    | cons x l ih =>
      intro d
      rw [List.foldl_cons, ih, UInt8.or_eq_zero_iff, List.forall_mem_cons, and_assoc]
  have hxor : ∀ a b : Bytes, a.length = b.length →
      ((∀ x ∈ List.zipWith (· ^^^ ·) a b, x = 0) ↔ a = b) := by
    intro a
    induction a with
    | nil => intro b hlen; cases b with
      | nil => simp
      | cons => cases hlen
    | cons x a ih =>
      intro b hlen
      cases b with
      | nil => cases hlen
      | cons y b =>
        rw [List.zipWith_cons_cons, List.forall_mem_cons, UInt8.xor_eq_zero_iff,
          ih b (Nat.succ.inj hlen), List.cons.injEq]
  unfold bytesMatch
  rw [Bool.and_eq_true, decide_eq_true_eq, beq_iff_eq, hor]
  constructor
  · rintro ⟨hlen, -, hzero⟩
    exact (hxor a b hlen).1 hzero
  · rintro rfl
    exact ⟨rfl, rfl, (hxor a a rfl).2 rfl⟩

theorem keyMatches_iff {presented expected : String} :
    keyMatches presented expected = true ↔ presented = expected := by
  unfold keyMatches
  rw [bytesMatch_iff]
  constructor
  · intro h
    exact String.toByteArray_inj.1 (ByteArray.ext (Array.toList_inj.1 h))
  · rintro rfl
    rfl

theorem presented_eq_some {key : String} : req.presented = some key ↔ req.Carries key := by
  unfold Request.presented Request.Carries
  simp only [Option.bind_eq_some_iff]
  constructor
  · rintro ⟨text, ⟨value, hvalue, htext⟩, hkey⟩
    refine ⟨value, text, hvalue, htext, ?_⟩
    rw [← String.toList_inj, String.toList_append]
    exact stripPrefix_eq_some.1 hkey
  · rintro ⟨value, text, hvalue, htext, rfl⟩
    exact ⟨_, ⟨value, hvalue, htext⟩, stripPrefix_eq_some.2 String.toList_append⟩

theorem findLiveApiKey_isSome {db : Db} {keyHash : Bytes} :
    (db.findLiveApiKey keyHash).isSome = true ↔
      ∃ k ∈ db.apiKey, k.keyHash = keyHash ∧ k.revokedAt = none := by
  unfold Db.findLiveApiKey
  rw [Option.isSome_map, List.find?_isSome]
  simp

/-- Who gets past the first half of the handler. -/
theorem exchangeInner_ok (hkeys : req.keyReadFails = false) :
    (exchangeInner env s req).2 = .ok response ↔
      s.Trusts env req ∧ (fromSession s req (env.tokenHash req.sessionToken)).2 = .ok response := by
  unfold InternalState.Trusts exchangeInner
  cases hkey : req.presented with
  | none =>
    have hno : ¬∃ key, req.Carries key := by
      rintro ⟨key, hc⟩
      rw [presented_eq_some.2 hc] at hkey
      cases hkey
    simp only [reduceCtorEq, false_iff, not_and]
    rintro ⟨key, hc, -⟩
    exact (hno ⟨key, hc⟩).elim
  | some presented =>
    have honly : ∀ key, req.Carries key ↔ key = presented := by
      intro key
      rw [← presented_eq_some, hkey, Option.some.injEq, eq_comm]
    simp only [honly, exists_eq_left]
    unfold authenticateBackend
    rw [hkeys]
    simp only [Bool.false_eq_true, if_false]
    rw [← findLiveApiKey_isSome]
    cases s.db.findLiveApiKey (env.sha256 presented) with
    | some keyId => simp
    | none =>
      cases s.apiKey with
      | none => simp
      | some expected =>
        simp only [Option.isSome_none, Bool.false_eq_true, false_or, Option.some.injEq]
        by_cases hmatch : keyMatches presented expected = true
        · rw [if_pos hmatch, keyMatches_iff.1 hmatch]
          simp
        · have hne : ¬expected = presented := fun h => hmatch (keyMatches_iff.2 h.symm)
          simp [hmatch, hne]

theorem loadCustody_eq_some {db : Db} {ring : KeyRing} {custody : CustodyId} {row : FullCustodyRow} :
    db.loadCustody ring custody = .ok (some row) ↔
      ∃ c, db.findCustody custody = some c ∧ c.tokens ring = (some row.refreshTok, some row.accessTok) ∧
        row = { row with
          custodyId := c.custodyId
          sub := c.sub
          accessExp := c.accessExp
          scope := c.scope
          status := c.status
          nextRefresh := c.nextRefresh
          failCount := c.failCount
          updatedAt := c.updatedAt
          providerId := c.providerId } := by
  unfold Db.loadCustody
  cases db.findCustody custody with
  | none => simp
  | some c =>
    simp only [Option.some.injEq, exists_eq_left']
    rcases htok : c.tokens ring with ⟨_ | refreshTok, _ | accessTok⟩
    · simp
    · simp
    · simp
    · simp only [Except.ok.injEq, Option.some.injEq, Prod.mk.injEq]
      constructor
      · rintro rfl
        exact ⟨⟨rfl, rfl⟩, rfl⟩
      · rintro ⟨⟨rfl, rfl⟩, hrow⟩
        exact hrow.symm

theorem respond_ok {row : FullCustodyRow} : respond now row = .ok response ↔
    now < row.accessExp ∧ ∃ accessToken, fromUtf8 row.accessTok = some accessToken ∧
      response = ⟨accessToken, row.sub, row.accessExp.secs, row.scope⟩ := by
  unfold respond
  by_cases hexp : row.accessExp ≤ now
  · simp [hexp, not_lt.2 hexp]
  · rw [if_neg hexp]
    cases fromUtf8 row.accessTok with
    | none => simp
    | some accessToken => simp [not_le.1 hexp, eq_comm]

theorem fromCustody_ok (hrow : req.rowReadFails = false) {custody : CustodyId} :
    fromCustody s req custody = .ok response ↔ s.Holds custody req.now response := by
  unfold fromCustody InternalState.Holds
  rw [hrow]
  simp only [Bool.false_eq_true, if_false]
  constructor
  · intro h
    cases hload : s.db.loadCustody s.ring custody with
    | error =>
      rw [hload] at h
      cases h
    | ok row =>
      rw [hload] at h
      cases row with
      | none => cases h
      | some row =>
        obtain ⟨c, hc, htok, hrow⟩ := loadCustody_eq_some.1 hload
        obtain ⟨hexp, accessToken, hutf8, hresponse⟩ := respond_ok.1 h
        rw [hrow] at hexp hresponse
        exact ⟨c, row.refreshTok, row.accessTok, accessToken, hc, htok, hexp, hutf8, hresponse⟩
  · rintro ⟨c, refreshTok, accessTok, accessToken, hc, htok, hexp, hutf8, hresponse⟩
    unfold Db.loadCustody
    rw [hc]
    dsimp only
    rw [htok]
    exact respond_ok.2 ⟨hexp, accessToken, hutf8, hresponse⟩

/-- A token that resolves has a session. -/
theorem exists_of_authenticates {m : SessionMap}
    (h : (m.resolve hash now).authenticates = true) :
    ∃ sid e sid' genNo newest, m.index hash = some sid ∧ m.sessions sid = some e ∧
      m.resolve hash now = .active sid' genNo newest := by
  cases hres : m.resolve hash now with
  | unknown | staleRefreshable | retired | hardExpired =>
    rw [hres] at h
    cases h
  | active sid' genNo newest =>
    cases hindex : m.index hash with
    | none => simp [SessionMap.resolve, hindex] at hres
    | some sid =>
      cases he : m.sessions sid with
      | none => simp [SessionMap.resolve, hindex, he] at hres
      | some e => exact ⟨sid, e, sid', genNo, newest, rfl, he, rfl⟩

/-- Who gets past the second half. -/
theorem fromSession_ok (hrow : req.rowReadFails = false) :
    (fromSession s req hash).2 = .ok response ↔ s.Backs hash req.now response := by
  have hopen : ∀ sid e, s.sessions.index hash = some sid → s.sessions.sessions sid = some e →
      (s.sessions.resolve hash req.now).authenticates = true →
      ((fromSession s req hash).2 = .ok response ↔
        e.custodyStatus ≠ .dead ∧ s.Holds e.custody req.now response) := by
    intro sid e hindex he hauth
    have hcustody : e.sessionMeta.custody = e.custodyStatus := rfl
    unfold fromSession SessionMap.metaFor SessionMap.custodyFor
    rw [hauth, hindex]
    simp only [Bool.true_eq_false, if_false, Option.bind_some, he, Option.map_some, hcustody]
    rw [← fromCustody_ok hrow]
    split_ifs with hdead <;> simp [hdead]
  constructor
  · intro h
    have hauth : (s.sessions.resolve hash req.now).authenticates = true := by
      by_contra hnot
      unfold fromSession at h
      rw [if_pos (by simpa using hnot)] at h
      cases h
    obtain ⟨sid, e, sid', genNo, newest, hindex, he, hres⟩ := exists_of_authenticates hauth
    exact ⟨sid, e, hindex, he, ⟨sid', genNo, newest, hres⟩, (hopen sid e hindex he hauth).1 h⟩
  · rintro ⟨sid, e, hindex, he, ⟨sid', genNo, newest, hres⟩, hholds⟩
    exact (hopen sid e hindex he (by rw [hres]; rfl)).2 hholds

/-- **What a backend is granted**: with a live issued key or the bootstrap key
    the access token of the custody behind an active session, and nothing in any
    other case. -/
theorem exchange_granted_iff (env : Env) (s : InternalState) (req : Request)
    (hkeys : req.keyReadFails = false) (hrow : req.rowReadFails = false) (response : TokenResponse) :
    (exchange env s req).1 = some (.granted response) ↔
      s.Trusts env req ∧ s.Backs (env.tokenHash req.sessionToken) req.now response := by
  rw [← fromSession_ok hrow, ← exchangeInner_ok hkeys]
  unfold exchange
  cases (exchangeInner env s req).2 with
  | ok granted => simp
  | error refusal =>
    simp only [reduceCtorEq, iff_false]
    split_ifs
    · cases s.limiter with
      | none => simp
      | some limiter =>
        cases req.client with
        | none => simp
        | some client =>
          dsimp only
          rcases limiter.checkAt env.checked ("backend_auth:" ++ client) req.instant with
            ⟨_ | _ | _, limiter'⟩ <;> simp
    · simp

end

namespace Backend

def env : Env := ⟨true, fun text => text.toUTF8.data.toList, fun _ => SessionToken.sample1.hash⟩

def ring : KeyRing := ⟨1, [1]⟩

def bytes (text : String) : Bytes := text.toList.map fun c => c.toNat.toUInt8

/-- One session, its custody, and one issued key. -/
def state : InternalState where
  sessions := .runs {} [.create ⟨"s"⟩ ⟨"c"⟩ "alice" .sample1 ⟨0⟩]
  db := { Db.fresh ⟨0⟩ with
    custody := [ring.sealRow ⟨⟨"c"⟩, "default|alice", [114], [97], ⟨3600⟩, none, .ok, ⟨0⟩, 0, ⟨0⟩, "default"⟩]
    apiKey := [⟨"k1", "billing", env.sha256 "key", ⟨0⟩, none, none, none⟩] }
  ring
  apiKey := none
  limiter := none

def request : Request := ⟨some (bytes "Bearer key"), "t", ⟨10⟩, none, 0, false, false⟩

end Backend

open Backend in
theorem exchange_granted_alice :
    (exchange env state request).1 = some (.granted ⟨"a", "default|alice", 3600, none⟩) := by
  refine (exchange_granted_iff env state request rfl rfl _).2 ⟨⟨"key", ?_, Or.inl ?_⟩, ?_⟩
  · exact ⟨bytes "Bearer key", "Bearer key", rfl, by decide +kernel, by decide +kernel⟩
  · exact ⟨_, List.mem_singleton_self _, rfl, rfl⟩
  · refine ⟨⟨"s"⟩, _, by decide +kernel, rfl, ⟨⟨"s"⟩, 1, true, by decide +kernel⟩, by decide +kernel, ?_⟩
    exact ⟨_, [114], [97], "a", rfl, by decide +kernel, by decide +kernel, by decide +kernel, rfl⟩

end Internal

end SessionBroker
