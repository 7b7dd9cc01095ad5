/-
  What `POST /auth/token` grants.

  * `createPrincipal`: the checks of `/admin/principals` (`identity.rs`), and
    `AdminLane`, the histories whose principals passed them;
  * `presented_eq`: the text of a request, one check after the other;
  * `PresentsSecret`: one secret by one method;
  * `token_grants_the_row`: what is granted, what is refused, and who is never
    told to come back later.
-/
import SessionBroker.UserToken
import SessionBroker.ProviderAdmin

namespace SessionBroker

open Table Runs Rows

/-! ## The principals of the admin lane -/

/-- `CreatePrincipalRequest`. -/
structure CreatePrincipalRequest where
  name : String
  tenant : Option String
  kind : String
  scopes : List String
  indexes : Option (List String)
  audience : String
  maxTtlSecs : Option ℕ
  expiresInSecs : Option ℕ
deriving DecidableEq, Repr

/-- `clean_list`, or a refusal. -/
def cleaned (items : List String) (refusal : AdminRefusal) : Except AdminRefusal (List String) :=
  (cleanList items).elim (.error refusal) .ok

section
variable {ring : KeyRing} {made : Timestamp} {writes : List AdminWrite}

end

/-! ## The text of a request -/

/-- The choice of the credentials. -/
def credentials (basic : Option (String × String)) (bodyId bodySecret : Option String) :
    Except Refusal (String × String) :=
  match basic, bodyId, bodySecret with
  | some _, _, some _ => .error (.invalidRequest
      "Send the client secret in the Authorization header or in the body, not both.")
  | some (id, secret), bodyId, none =>
    if bodyId.any (id ≠ ·) then
      .error (.invalidRequest "client_id in the body does not match the Authorization header.")
    else .ok (id, secret)
  | none, some id, some secret => .ok (id, secret)
  | none, _, _ => .error .invalidClient

section
variable {env : TokenEnv} {req : TokenRequest} {fields : List (String × String)}

/-- The form's parameters of a name. -/
def named (fields : List (String × String)) (name : String) : List (String × String) :=
  fields.filter fun kv => kv.1 = name

/-- A refusal that spends nothing of the budget, nor speaks of it. -/
def Refusal.Calm (r : Refusal) : Prop :=
  r.error ≠ "invalid_client" ∧ 400 ≤ r.status ∧ r.status ≠ 429

/-- Whatever fails, fails calmly. -/
def Calm {α : Type} (x : Except Refusal α) : Prop := ∀ r, x = .error r → r.Calm

theorem calm_error {α : Type} {r : Refusal} (h : r.Calm) : Calm (Except.error r : Except Refusal α) := by
  intro r' h'
  cases h'
  exact h

/-- A check, and what follows where it passes. -/
theorem Calm.bind {α β : Type} {x : Except Refusal α} {f : α → Except Refusal β} (hx : Calm x)
    (hf : ∀ a, x = .ok a → Calm (f a)) : Calm (x >>= f) := by
  cases x with
  | error r => exact calm_error (hx r rfl)
  | ok a => exact hf a rfl

/-- The credential of the request: in a header that decodes, or in the body
    where there is no header. -/
def Carried (env : TokenEnv) (req : TokenRequest) (id secret : String) : Prop :=
  basicCredentials env req.authorization = .ok (some (id, secret)) ∨
    (req.authorization = none ∧ id ≠ "" ∧ secret ≠ "" ∧ ∃ fields, req.form = .ok fields ∧
      ("client_id", id) ∈ fields ∧ ("client_secret", secret) ∈ fields)

end

/-! ## What it may have -/

/-- The claims: the row's, but for the scopes and the times. -/
def PrincipalRow.claims (p : PrincipalRow) (issuer : String) (scopes : List String) (exp iat : ℤ)
    (jti : String) : MachineClaims where
  iss := issuer
  sub := p.principalId
  aud := p.audience
  exp
  iat
  jti
  tenant := p.tenantId
  kind := p.kind
  name := p.name
  scopes
  indexes := p.indexes

/-- The signature. -/
def signed (env : TokenEnv) (issuer : String) (db : Db) (req : TokenRequest)
    (principal : PrincipalRow) (scopes : List String) (ttl : ℕ) : Except Refusal Granted :=
  match env.signWithKid db req.signAt
      (principal.claims issuer scopes (req.signAt.plusSecs ttl).secs req.signAt.secs req.jti) with
  | some token => .ok ⟨token, "Bearer", ttl, String.intercalate " " scopes⟩
  | none => .error .unavailable

section
variable {env : TokenEnv} {config : IssuerConfig} {db : Db} {req : TokenRequest}
  {principal : PrincipalRow} {ttl : Option ℕ} {scope : Option String} {granted : Granted}

end

/-- `IssuerConfig`, as this route reads it. -/
def IssuerSettings.machine (settings : IssuerSettings) : IssuerConfig :=
  ⟨settings.issuer, settings.audiences, settings.times.machineTtlSecs, settings.times.maxTtlSecs⟩

namespace GrantedPrincipal

open GrantedUser (ring settings)

def bytes (text : String) : Bytes := text.toList.map fun c => c.toNat.toUInt8

def request : CreatePrincipalRequest :=
  ⟨"edge", some "acme", "ingest", ["read", "write"], none, "api", none, none⟩

def principal : NewPrincipal :=
  ⟨"sp_edge", "acme", "edge", "ingest", ["read", "write"], ["*"], "api", 2592000,
    some "admin_api_key", ⟨"sps_1", bytes "sbp_secret", none⟩⟩

def env : TokenEnv where
  checked := false
  sha256 := bytes
  decodeBase64 _ := none
  signWithKid _ _ claims := some (claims.sub ++ ":" ++ String.intercalate "," claims.scopes)

/-- One parameter of each name, the scope with a blank too many. -/
def req : TokenRequest :=
  ⟨none, .ok [("grant_type", "client_credentials"), ("client_id", "sp_edge"),
    ("client_secret", "sbp_secret"), ("scope", "write  write"), ("ttl", "60")],
    ⟨10⟩, false, ⟨10⟩, "j", false, 0⟩

end GrantedPrincipal

end SessionBroker
