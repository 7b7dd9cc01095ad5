/-
  `/auth/login` and `/auth/callback` (`http/auth.rs`, `OidcClient` of
  `oauth.rs`), cut where they read or write what others share.

  * A request is a stage, what it is about to do next; each function here is
    what it does between two reads of shared state;
  * what the provider answers is part of the step that awaits it: discovery, and
    the grant of a code exchange, which is there only once the ID token has been
    verified;
  * the messages for the browser, the desktop and the log are left out, and so
    are the audit rows.
-/
import SessionBroker.Providers

namespace SessionBroker

/-- `OauthError`, as far as a callback meets it. -/
inductive OauthError where
  | unknownTxn
  | txnExpired
  | stateMismatch
  | providerError (said : String)
  | exchange (reason : String)
  | missingIdToken
  | invalidIdToken (reason : String)
  | issuerMismatch
  | providerDisabled
  | providerGone
  | providerUnavailable (reason : String)
  | subjectCollision
deriving DecidableEq, Repr

/-- `OauthError::code`. -/
def OauthError.code : OauthError → String
  | unknownTxn => "unknown_txn"
  | txnExpired => "txn_expired"
  | stateMismatch => "state_mismatch"
  | providerError _ => "provider_error"
  | exchange _ => "exchange_failed"
  | missingIdToken => "missing_id_token"
  | invalidIdToken _ => "invalid_id_token"
  | issuerMismatch => "iss_mismatch"
  | providerDisabled => "provider_disabled"
  | providerGone => "provider_gone"
  | providerUnavailable _ => "provider_unavailable"
  | subjectCollision => "subject_collision"

/-! ## Logins -/

/-- Where a request for `/auth/login` stands. -/
inductive BeginStage where
  | idle
  | connecting (entry : Entry)
  | refused (refusal : LoginRefusal)
  | begun (txnId : String)

def BeginStage.ofEntry : Except LoginRefusal Entry → BeginStage
  | .ok entry => .connecting entry
  | .error refusal => .refused refusal

/-- What a login draws and keeps: `TxnRecord` but for its provider. -/
structure LoginDraw where
  txnId : String
  state : String
  nonce : String
  pkceVerifier : String
  returnTo : Option String
deriving DecidableEq, Repr

/-- `begin_login`: the record it stores. -/
def OidcClient.beginLogin (client : OidcClient) (draw : LoginDraw) (now : Timestamp) : TxnRecord :=
  ⟨client.providerId, draw.state, draw.nonce, draw.pkceVerifier, draw.returnTo, now⟩

/-! ## Callbacks -/

structure CallbackQuery where
  code : Option String := none
  state : Option String := none
  error : Option String := none
  errorDescription : Option String := none
  iss : Option String := none
deriving DecidableEq, Repr

/-- `UpstreamTokens`. -/
structure UpstreamTokens where
  accessToken : String
  refreshToken : Option String
  expiresAt : Timestamp
  scope : Option String
  sub : String
  providerId : String
deriving DecidableEq, Repr

/-- What a verified token response says. -/
structure UpstreamGrant where
  subject : String
  accessToken : String
  refreshToken : Option String
  expiresIn : Option ℕ
  scope : Option String
deriving DecidableEq, Repr

/-- Where a callback stands. -/
inductive CallbackStage where
  | arrived
  | named (providerId : String)
  | connecting (entry : Entry)
  | connected (client : OidcClient)
  | discarding (error : OauthError)
  | exchanging (client : OidcClient)
  | identified (client : OidcClient) (upstreamSub : String) (tokens : UpstreamTokens)
  | admitted (client : OidcClient) (upstreamSub : String) (tokens : UpstreamTokens)
  | inCustody (client : OidcClient) (upstreamSub : String) (tokens : UpstreamTokens)
  | failed (code : String)
  | signedIn (sid : Sid)

/-- A callback: the transaction its cookie names, its query, and the clock as it
    read it when it arrived. -/
structure Callback where
  txnId : String
  query : CallbackQuery
  now : Timestamp
  stage : CallbackStage

/-- An authorization code sent to a token endpoint, by a callback that read the
    clock at `now`. -/
structure Exchange where
  txnId : String
  providerId : String
  issuer : String
  state : String
  code : String
  pkceVerifier : String
  now : Timestamp
deriving DecidableEq, Repr

/-- `txn_provider`. -/
def CallbackStage.readTxn (txns : TxnStore) (txnId : String) : CallbackStage :=
  match txns.providerOf txnId with
  | some providerId => .named providerId
  | none => .failed OauthError.unknownTxn.code

/-- `client_for_callback`, up to its await. -/
def CallbackStage.readEntry (registry : ProviderRegistry) (providerId : String) : CallbackStage :=
  match (registry.get providerId).filter (!·.settings.deleted) with
  | some entry => if entry.settings.enabled then .connecting entry else .discarding .providerDisabled
  | none => .discarding .providerGone

/-- `client_for_callback`, past its await. -/
def CallbackStage.ofClient : Except DiscoveryFailure OidcClient → CallbackStage
  | .ok client => .connected client
  | .error failure => .discarding (.providerUnavailable (failure.failure ++ ": " ++ failure.detail))

/-- The checks of `resolve` on the query: the code and the state, or the error
    the transaction is discarded for. -/
def CallbackQuery.codeAndState (query : CallbackQuery) (client : OidcClient) :
    Except OauthError (String × String) :=
  if query.iss.any (· ≠ client.issuer) then .error .issuerMismatch
  else match query.error with
    | some error => .error (.providerError
        (match query.errorDescription with
        | some description => error ++ ": " ++ description
        | none => error))
    | none =>
      match query.code, query.state with
      | some code, some state => .ok (code, state)
      | _, _ => .error (.providerError "callback is missing code or state")

/-- The checks of `complete_login` on the record it took. -/
def OidcClient.checkTxn (client : OidcClient) (record : Option TxnRecord) (presentedState : String)
    (now : Timestamp) : Except OauthError TxnRecord :=
  match record with
  | none => .error .unknownTxn
  | some record =>
    if record.providerId ≠ client.providerId then .error .unknownTxn
    else if txnTtlSecs ≤ now.since record.createdAt then .error .txnExpired
    else if record.state ≠ presentedState then .error .stateMismatch
    else .ok record

/-- `resolve` from the client on, up to the exchange: the transactions, the code
    that is sent, and where the callback stands. -/
def Callback.redeem (c : Callback) (client : OidcClient) (txns : TxnStore) :
    TxnStore × Option Exchange × CallbackStage :=
  match c.query.codeAndState client with
  | .error error => (txns.discard c.txnId, none, .failed error.code)
  | .ok (code, state) =>
    let (record, txns) := txns.take c.txnId
    match client.checkTxn record state c.now with
    | .error error => (txns, none, .failed error.code)
    | .ok record =>
      if client.tokenEndpoint then
        (txns, some ⟨c.txnId, client.providerId, client.issuer, state, code, record.pkceVerifier,
          c.now⟩, .exchanging client)
      else (txns, none, .failed (OauthError.exchange "").code)

/-- `complete_login` past the exchange. -/
def CallbackStage.ofGrant (client : OidcClient) (now : Timestamp) :
    Except OauthError UpstreamGrant → CallbackStage
  | .error error => .failed error.code
  | .ok grant => .identified client grant.subject
    { accessToken := grant.accessToken
      refreshToken := grant.refreshToken
      expiresAt := now.plusSecs (grant.expiresIn.getD 300)
      scope := grant.scope
      sub := personSubject client.providerId grant.subject
      providerId := client.providerId }

/-- The last check of `resolve`: a subject of the config provider that is
    spelled like another provider's person. -/
def CallbackStage.checkSubject (registry : ProviderRegistry) (client : OidcClient)
    (upstreamSub : String) (tokens : UpstreamTokens) : CallbackStage :=
  if tokens.providerId = defaultProvider ∧ registry.subjectCollides tokens.sub then
    .failed OauthError.subjectCollision.code
  else .admitted client upstreamSub tokens

/-- The custody row of `take_custody`.  The first deadline is left open. -/
def UpstreamTokens.custodyRow (tokens : UpstreamTokens) (custodyId : CustodyId)
    (nextRefresh now : Timestamp) : FullCustodyRow where
  custodyId
  sub := tokens.sub
  refreshTok := (tokens.refreshToken.getD "").toUTF8.toList
  accessTok := tokens.accessToken.toUTF8.toList
  accessExp := tokens.expiresAt
  scope := tokens.scope
  status := .ok
  nextRefresh
  failCount := 0
  updatedAt := now
  providerId := tokens.providerId

end SessionBroker
