/-
  Tokens from end to end (`issuer/jwt.rs`, `sign_with_kid` and `jwks` of
  `issuer/mod.rs`), against the verifier that `issuer/vectors.rs` writes out of
  `docs/verifier/README.md`.

  * Ed25519 and `serde_json::from_slice` are parameters; what is written is
    written here;
  * `identities` is what the table of keys never takes back: which public key
    is under which id;
  * `referenceVerify_ok`: a verifier with a key set that was ever served accepts
    what the broker issued, under a key of the set, and nothing else.
-/
import SessionBroker.Keyfile
import SessionBroker.Lib.Base64
import SessionBroker.Lib.Checks
import SessionBroker.Lib.Run
import SessionBroker.MetaCookie
import SessionBroker.SigningKid
import SessionBroker.TokenRoute
import SessionBroker.UserToken
import Mathlib.Data.UInt

namespace SessionBroker

open Relation Runs Crypto Checks

/-! ## JSON -/

/-- `serde_json::Value`.  An `int` is a number that `as_i64` reads, a `float`
    any other. -/
inductive Json where
  | null
  | bool (b : Bool)
  | int (n : ℤ)
  | float (text : String)
  | string (s : String)
  | array (items : List Json)
  | object (members : List (String × Json))

namespace Json

def get : Json → String → Option Json
  | object members, key => members.lookup key
  | _, _ => none

/-- `value[key]`. -/
def index (value : Json) (key : String) : Json := (value.get key).getD null

def asStr : Json → Option String
  | string s => some s
  | _ => none

def asI64 : Json → Option ℤ
  | int n => some n
  | _ => none

def asArray : Json → Option (List Json)
  | array items => some items
  | _ => none

/-- `value == text`. -/
def eqStr (value : Json) (text : String) : Bool := decide (value.asStr = some text)

/-- A value of the objects that the broker writes. -/
inductive Written where
  | string (s : String)
  | int (n : ℤ)
  | strings (l : List String)
deriving DecidableEq, Repr

namespace Written

def text : Written → String
  | string s => jsonString s
  | int n => toString n
  | strings l => "[" ++ ",".intercalate (l.map jsonString) ++ "]"

def value : Written → Json
  | string s => .string s
  | int n => .int n
  | strings l => .array (l.map .string)

end Written

/-- `serde_json::to_vec` of a struct. -/
def toVec (members : List (String × Written)) : Bytes :=
  asBytes ("\x7b" ++ ",".intercalate (members.map fun p => jsonString p.1 ++ ":" ++ p.2.text) ++ "\x7d")

theorem get_object_map (members : List (String × Written)) (key : String) :
    (object (members.map fun p => (p.1, p.2.value))).get key =
      (members.lookup key).map Written.value := by
  induction members with
  | nil => rfl
  | cons p members ih =>
    simp only [get, List.map_cons] at ih ⊢
    rw [List.lookup_cons, List.lookup_cons]
    cases key == p.1 with
    | true => rfl
    | false => exact ih

/-- What was written is read: the same members, in whatever order. -/
def ReadBack (fromSlice : Bytes → Option Json) (members : List (String × Written)) : Prop :=
  ∃ read, fromSlice (toVec members) = some read ∧
    ∀ key, read.get key = (members.lookup key).map Written.value

end Json

/-! ## The encoder -/

/-- The signature scheme: `KeyScheme` with its signatures. -/
structure Ed25519 extends KeyScheme where
  /-- `VerifyingKey::from_bytes` takes these bytes. -/
  isKey : Bytes → Bool
  sign : Bytes → Bytes → Bytes
  verify : Bytes → Bytes → Bytes → Bool
  length_verifyingKey : ∀ seed, (verifyingKey seed).length = 32
  length_sign : ∀ seed message, (sign seed message).length = 64
  isKey_verifyingKey : ∀ seed, isKey (verifyingKey seed) = true
  verify_sign : ∀ seed message, verify (verifyingKey seed) message (sign seed message) = true

namespace Jwt

/-- The claims of either kind of token. -/
inductive Claims where
  | machine (c : MachineClaims)
  | user (c : UserClaims)
deriving DecidableEq, Repr

namespace Claims

/-- In the order of the structs. -/
def members : Claims → List (String × Json.Written)
  | machine c =>
    [("iss", .string c.iss), ("sub", .string c.sub), ("aud", .string c.aud), ("exp", .int c.exp),
      ("iat", .int c.iat), ("jti", .string c.jti), ("tenant", .string c.tenant),
      ("kind", .string c.kind), ("name", .string c.name), ("scopes", .strings c.scopes),
      ("indexes", .strings c.indexes)]
  | user c =>
    [("iss", .string c.iss), ("sub", .string c.sub), ("sid", .string c.sid), ("aud", .string c.aud),
      ("exp", .int c.exp), ("iat", .int c.iat), ("jti", .string c.jti), ("kind", .string c.kind),
      ("tenant", .string c.tenant), ("roles", .strings c.roles), ("indexes", .strings c.indexes)]

def iss : Claims → String
  | machine c => c.iss
  | user c => c.iss

def aud : Claims → String
  | machine c => c.aud
  | user c => c.aud

def exp : Claims → ℤ
  | machine c => c.exp
  | user c => c.exp

def iat : Claims → ℤ
  | machine c => c.iat
  | user c => c.iat

end Claims

/-- `Header`. -/
def header (kid : String) : List (String × Json.Written) :=
  [("alg", .string "EdDSA"), ("typ", .string "JWT"), ("kid", .string kid)]

/-- `URL_SAFE_NO_PAD.encode`. -/
def segment (bytes : Bytes) : String := .ofList (Base64.encode bytes)

/-- The first two segments. -/
def signedText (kid : String) (claims : Claims) : String :=
  segment (Json.toVec (header kid)) ++ "." ++ segment (Json.toVec claims.members)

/-- `encode`. -/
def encode (ed : Ed25519) (kid : String) (seed : Bytes) (claims : Claims) : String :=
  let token := signedText kid claims
  token ++ "." ++ segment (ed.sign seed (asBytes token))

/-! ## The verifier -/

/-- The reasons of the README. -/
inductive Rejection where
  | malformed
  | alg
  | unknownKid
  | signature
  | claims
  | issuer
  | audience
  | expired
  | notYetValid
deriving DecidableEq, Repr

def Rejection.text : Rejection → String
  | malformed => "malformed"
  | alg => "alg"
  | unknownKid => "unknown_kid"
  | signature => "signature"
  | claims => "claims"
  | issuer => "issuer"
  | audience => "audience"
  | expired => "expired"
  | notYetValid => "not_yet_valid"

/-- What a resource server is configured with, and what it calls. -/
structure Verifier where
  ed : Ed25519
  fromSlice : Bytes → Option Json
  issuer : String
  audience : String

/-- `ALLOWANCE`. -/
def allowance : ℤ := 300

/-- The claims that must be there. -/
def required : List String := ["iss", "sub", "aud", "exp", "iat", "jti", "tenant", "kind"]

/-- `decode`. -/
def decodeSegment (s : String) : Except Rejection Bytes := okOr .malformed (Base64.decode s.toList)

/-- `reference_verify`. -/
def referenceVerify (v : Verifier) (jwks : Json) (token : String) (now : ℤ) : Except Rejection Unit :=
  match split '.' token with
  | [header, payload, signature] => do
    let header ← decodeSegment header
    let header ← okOr .malformed (v.fromSlice header)
    refuse (!(header.index "alg").eqStr "EdDSA") .alg
    refuse (((header.get "typ").any fun t => !t.eqStr "JWT") || (header.get "crit").isSome) .malformed
    let kid ← okOr .malformed (header.index "kid").asStr
    let jwk ← okOr .unknownKid
      ((jwks.index "keys").asArray.bind (·.find? fun k => (k.index "kid").eqStr kid))
    let x ← okOr .malformed (jwk.index "x").asStr
    let verifying ← decodeSegment x
    refuse (!(decide (verifying.length = 32) && v.ed.isKey verifying)) .malformed
    let signed := (asBytes token).take ((asBytes token).length - (asBytes signature).length - 1)
    let signature ← decodeSegment signature
    refuse (!decide (signature.length = 64)) .signature
    refuse (!v.ed.verify verifying signed signature) .signature
    let payload ← decodeSegment payload
    let claims ← okOr .malformed (v.fromSlice payload)
    refuse (!required.all fun name => (claims.get name).isSome) .claims
    refuse (!(claims.index "iss").eqStr v.issuer) .issuer
    refuse (!(claims.index "aud").eqStr v.audience) .audience
    let exp ← okOr .claims (claims.index "exp").asI64
    let iat ← okOr .claims (claims.index "iat").asI64
    refuse (decide (exp ≤ now - allowance)) .expired
    refuse (decide (now + allowance < iat)) .notYetValid
  | _ => .error .malformed

/-! ## The issuer -/

/-- `Issuer`, and the parser of the verifiers. -/
structure Env where
  ed : Ed25519
  ring : SessionBroker.KeyRing
  policy : KeyPolicy

def Env.issuer (env : Env) : IssuerEnv := ⟨env.ed.toKeyScheme, env.ring, env.policy⟩

def jwkValue (key : String × Bytes) : Json :=
  .object [("kty", .string "OKP"), ("crv", .string "Ed25519"), ("kid", .string key.1),
    ("x", .string (segment key.2)), ("use", .string "sig"), ("alg", .string "EdDSA")]

/-- `jwks`, as JSON. -/
def jwksValue (keys : List (String × Bytes)) : Json := .object [("keys", .array (keys.map jwkValue))]

/-- One signature of `sign_with_kid`. -/
structure Issued where
  kid : String
  seed : Bytes
  claims : Claims
deriving DecidableEq, Repr

def Issued.token (env : Env) (g : Issued) : String := encode env.ed g.kid g.seed g.claims

/-- The broker with its keys, the tokens it issued and the key sets it served. -/
structure Service where
  keys : KeyService
  issued : List Issued
  served : List (List (String × Bytes))

inductive Action where
  | keys (op : KeyServiceOp)
  /-- `sign_with_kid`. -/
  | sign (now : Timestamp) (claims : Claims)
  /-- `jwks`. -/
  | fetch (now : Timestamp)

/-- What `sign_with_kid` signs with, of keys just read. -/
def signing (keys : KeyService) (now : Timestamp) (claims : Claims) : Option Issued :=
  (keys.cache.bind (·.signing now)).map fun (kid, seed) => ⟨kid, seed, claims⟩

def Service.step (env : Env) (s : Service) : Action → Service
  | .keys op => { s with keys := s.keys.step env.issuer op }
  | .sign now claims =>
    let keys := s.keys.step env.issuer (.withKeys now)
    { s with keys, issued := s.issued ++ (signing keys now claims).toList }
  | .fetch now =>
    { s with
      keys := s.keys.step env.issuer (.withKeys now)
      served := s.served ++ (s.keys.cache.map (env.issuer.jwks s.keys.db · now)).toList }

def Service.boot (db : Db) : Service := ⟨⟨db, none⟩, [], []⟩

/-! ## Which key is under which id -/

/-- The id and the public key of a row. -/
def identity (k : SigningKeyRecord) : String × Bytes := (k.kid, k.publicKey)

def identities (keys : List SigningKeyRecord) : List (String × Bytes) := keys.map identity

theorem fst_identities (keys : List SigningKeyRecord) :
    (identities keys).map (·.1) = keys.map (·.kid) := by
  simp [identities, identity]

theorem identity_redate (now activateAt retireAt : Timestamp) (k : SigningKeyRecord) :
    identity (k.redate now activateAt retireAt) = identity k := by
  obtain ⟨e, he, -⟩ := SigningKeyRecord.redate_spec now activateAt retireAt k
  rw [he]
  rfl

section
variable {env : IssuerEnv} {ok : ℕ → Prop} {now : Timestamp} {keys keys' : List SigningKeyRecord}

/-- A row stays, with its public key under its id. -/
theorem identities_move (h : KeyMove env ok now keys keys') : identities keys <+: identities keys' := by
  cases h with
  | create seed => exact List.nil_prefix
  | rotate _ lead seed hl hnew =>
    refine ⟨[identity (env.newRow seed now (now.plusSecs lead))], ?_⟩
    simp only [identities, IssuerEnv.rotated, List.map_append, List.map_map, List.map_cons,
      List.map_nil]
    congr 1
    exact List.map_congr_left fun k _ => (identity_redate ..).symm
  | remove _ kid =>
    have hsame : identities (removeKid now kid keys) = identities keys := by
      rw [identities, removeKid, Table.updateWhere, List.map_map]
      refine List.map_congr_left fun k _ => ?_
      rw [Function.comp_apply]
      split_ifs <;> rfl
    rw [hsame]

theorem identities_moves (h : ReflTransGen (KeyMove env ok now) keys keys')
    (hkids : (keys.map (·.kid)).Nodup) :
    identities keys <+: identities keys' ∧ (keys'.map (·.kid)).Nodup := by
  induction h with
  | refl => exact ⟨List.prefix_rfl, hkids⟩
  | tail _ hmove ih => exact ⟨ih.1.trans (identities_move hmove), KeyMove.kids ih.2 hmove⟩

end

/-- In memory are rows of the table, each with a seed of its own if with any. -/
structure Faithful (ed : Ed25519) (keys : List SigningKeyRecord) (cache : KeyCache) : Prop where
  row : ∀ k ∈ cache.keys, identity k.row ∈ identities keys
  seed : ∀ k ∈ cache.keys, ∀ seed, k.signing = some seed → ed.verifyingKey seed = k.row.publicKey

theorem Faithful.mono {ed : Ed25519} {keys keys' : List SigningKeyRecord} {cache : KeyCache}
    (h : Faithful ed keys cache) (hsub : identities keys ⊆ identities keys') :
    Faithful ed keys' cache where
  row k hk := hsub (h.row k hk)
  seed := h.seed

theorem faithful_reload (env : Env) (db : Db) (now : Timestamp) :
    Faithful env.ed db.signingKey (env.issuer.reload db now) := by
  constructor
  · intro k hk
    rw [IssuerEnv.reload, freshCache_keys] at hk
    obtain ⟨r, hr, rfl⟩ := List.mem_map.1 hk
    have hmem := (List.mem_filter.1 (Latest.mem_newestFirst.1 hr)).1
    exact List.mem_map_of_mem (mem_zipIdx_fst.1 ⟨r, hmem, rfl⟩)
  · intro k hk seed hseed
    rw [IssuerEnv.reload, freshCache_keys] at hk
    obtain ⟨r, -, rfl⟩ := List.mem_map.1 hk
    exact of_decide_eq_true (Option.filter_eq_some_iff.1 hseed).2

/-- What every run keeps. -/
structure Consistent (env : Env) (s : Service) : Prop where
  kids : (s.keys.db.signingKey.map (·.kid)).Nodup
  cache : ∀ cache, s.keys.cache = some cache → Faithful env.ed s.keys.db.signingKey cache
  issued : ∀ g ∈ s.issued, (g.kid, env.ed.verifyingKey g.seed) ∈ identities s.keys.db.signingKey
  served : ∀ set ∈ s.served, ∀ key ∈ set, key ∈ identities s.keys.db.signingKey

namespace Consistent

variable {env : Env} {s : Service}

theorem cache_step (h : Consistent env s) (op : KeyServiceOp)
    (hsub : identities s.keys.db.signingKey ⊆ identities (s.keys.step env.issuer op).db.signingKey)
    (cache : KeyCache) (hc : (s.keys.step env.issuer op).cache = some cache) :
    Faithful env.ed (s.keys.step env.issuer op).db.signingKey cache := by
  cases hold : s.keys.cache with
  | none =>
    cases op with
    | bootstrap now seed =>
      unfold KeyService.step at hc ⊢
      dsimp only at hc ⊢
      split at hc
      · rename_i db cache' hboot
        obtain ⟨rfl, -⟩ := bootstrap_eq_some hboot
        obtain rfl := Option.some.inj hc
        exact faithful_reload env db now
      · rw [hold] at hc
        cases hc
    | rotate now activateInSecs actorId seed =>
      unfold KeyService.step at hc
      dsimp only at hc
      split at hc
      · simp [hold] at hc
      · simp [hold] at hc
    | command now immediate seed =>
      unfold KeyService.step at hc
      dsimp only at hc
      split at hc
      · simp [hold] at hc
      · simp [hold] at hc
    | pruneRetired now => simp [KeyService.step, hold] at hc
    | reload now => simp [KeyService.step, hold] at hc
    | withKeys now => simp [KeyService.step, hold] at hc
  | some cache' =>
    rcases KeyService.step_cache env.issuer hold op with hsame | hnew
    · obtain rfl := Option.some.inj (hsame.symm.trans hc)
      exact (h.cache _ hold).mono hsub
    · obtain rfl := Option.some.inj (hnew.symm.trans hc)
      exact faithful_reload env _ _

theorem keys (h : Consistent env s) (op : KeyServiceOp) :
    Consistent env { s with keys := s.keys.step env.issuer op } := by
  obtain ⟨hgrown, hkids⟩ := identities_moves (KeyService.step_moves s.keys op fun _ _ => trivial) h.kids
  have hsub := hgrown.subset
  exact ⟨hkids, h.cache_step op hsub, fun g hg => hsub (h.issued g hg),
    fun set hset key hkey => hsub (h.served set hset key hkey)⟩

theorem sign (h : Consistent env s) {now : Timestamp} {claims : Claims} {g : Issued}
    (hg : signing s.keys now claims = some g) :
    (g.kid, env.ed.verifyingKey g.seed) ∈ identities s.keys.db.signingKey := by
  obtain ⟨⟨kid, seed⟩, hsigning, rfl⟩ := Option.map_eq_some_iff.1 hg
  obtain ⟨cache, hcache, hfind⟩ := Option.bind_eq_some_iff.1 hsigning
  obtain ⟨k, hk, hseed⟩ := List.exists_of_findSome?_eq_some hfind
  obtain ⟨seed', hs, he⟩ := Option.map_eq_some_iff.1 hseed
  obtain ⟨rfl, rfl⟩ := Prod.mk.inj he
  have hmem := (List.mem_filter.1 hk).1
  have hfaithful := h.cache cache hcache
  have hkey := hfaithful.seed k hmem _ hs
  dsimp only
  rw [hkey]
  exact hfaithful.row k hmem

theorem fetch (h : Consistent env s) {now : Timestamp} {cache : KeyCache}
    (hc : s.keys.cache = some cache) {key : String × Bytes}
    (hkey : key ∈ env.issuer.jwks s.keys.db cache now) :
    key ∈ identities s.keys.db.signingKey := by
  have hfaithful : Faithful env.ed s.keys.db.signingKey (env.issuer.withKeys s.keys.db cache now) := by
    unfold IssuerEnv.withKeys
    split_ifs
    · exact faithful_reload env _ _
    · exact h.cache cache hc
  simp only [IssuerEnv.jwks, KeyCache.published, List.map_map, List.mem_map, List.mem_filter] at hkey
  obtain ⟨k, ⟨hk, -⟩, rfl⟩ := hkey
  exact hfaithful.row k hk

theorem step (h : Consistent env s) (a : Action) : Consistent env (s.step env a) := by
  cases a with
  | keys op => exact h.keys op
  | sign now claims =>
    have hkeys := h.keys (.withKeys now)
    refine ⟨hkeys.kids, hkeys.cache, fun g hg => ?_, hkeys.served⟩
    rcases List.mem_append.1 hg with hg | hg
    · exact hkeys.issued g hg
    · exact hkeys.sign (Option.mem_toList.1 hg)
  | fetch now =>
    have hkeys := h.keys (.withKeys now)
    refine ⟨hkeys.kids, hkeys.cache, hkeys.issued, fun set hset => ?_⟩
    rcases List.mem_append.1 hset with hset | hset
    · exact hkeys.served set hset
    · obtain ⟨cache, hc, rfl⟩ := Option.map_eq_some_iff.1 (Option.mem_toList.1 hset)
      exact fun key hkey => h.fetch hc hkey

theorem boot {db : Db} (hdb : db.signingKey = []) : Consistent env (.boot db) where
  kids := by simp [Service.boot, hdb]
  cache := by simp [Service.boot]
  issued := by simp [Service.boot]
  served := by simp [Service.boot]

theorem run {db : Db} (hdb : db.signingKey = []) (as : List Action) :
    Consistent env (Runs.run (Service.step env) (.boot db) as) := by
  have hstep : ∀ s a, Consistent env s → Consistent env (s.step env a) := fun _ a h => h.step a
  exact run_preserves hstep (boot hdb) as

/-- One id, one key. -/
theorem publicKey_eq (h : Consistent env s) {kid : String} {pk pk' : Bytes}
    (hmem : (kid, pk) ∈ identities s.keys.db.signingKey)
    (hmem' : (kid, pk') ∈ identities s.keys.db.signingKey) : pk = pk' := by
  have hnodup : ((identities s.keys.db.signingKey).map (·.1)).Nodup := by
    rw [fst_identities]
    exact h.kids
  exact congrArg Prod.snd (List.inj_on_of_nodup_map hnodup hmem hmem' rfl)

end Consistent

/-! ## What the verifier accepts -/

theorem eqStr_iff {value : Json} {text : String} : value.eqStr text = true ↔ value.asStr = some text :=
  decide_eq_true_iff

/-- Every check of the header. -/
structure HeaderOk (h : Json) (kid : String) : Prop where
  alg : (h.index "alg").asStr = some "EdDSA"
  typ : ∀ t, h.get "typ" = some t → t.asStr = some "JWT"
  crit : h.get "crit" = none
  kid : (h.index "kid").asStr = some kid

/-- Every check of the claims. -/
structure ClaimsOk (v : Verifier) (claims : Json) (now : ℤ) : Prop where
  present : ∀ name ∈ required, (claims.get name).isSome
  issuer : (claims.index "iss").asStr = some v.issuer
  audience : (claims.index "aud").asStr = some v.audience
  exp : ∃ exp, (claims.index "exp").asI64 = some exp ∧ now - 300 < exp
  iat : ∃ iat, (claims.index "iat").asI64 = some iat ∧ iat ≤ now + 300

/-- The key that a set has under an id. -/
def jwkOf (jwks : Json) (kid : String) : Option Json :=
  (jwks.index "keys").asArray.bind (·.find? fun k => (k.index "kid").eqStr kid)

/-- **The verifier, in one line for each check.** -/
theorem referenceVerify_iff {v : Verifier} {jwks : Json} {token header payload signature : String}
    {now : ℤ} (hsplit : split '.' token = [header, payload, signature]) :
    referenceVerify v jwks token now = .ok () ↔
      ∃ hbytes h kid jwk x pk sig pbytes claims,
        (Base64.decode header.toList = some hbytes ∧ v.fromSlice hbytes = some h ∧ HeaderOk h kid) ∧
        (jwkOf jwks kid = some jwk ∧ (jwk.index "x").asStr = some x ∧
          Base64.decode x.toList = some pk ∧ pk.length = 32 ∧ v.ed.isKey pk = true) ∧
        (Base64.decode signature.toList = some sig ∧ sig.length = 64 ∧
          v.ed.verify pk ((asBytes token).take
            ((asBytes token).length - (asBytes signature).length - 1)) sig = true) ∧
        Base64.decode payload.toList = some pbytes ∧ v.fromSlice pbytes = some claims ∧
          ClaimsOk v claims now := by
  unfold referenceVerify
  rw [hsplit]
  simp only [decodeSegment, okOr_bind, refuse_bind, refuse_ok]
  constructor
  · rintro ⟨hbytes, hh, h, hparse, halg, htyp, kid, hkid, jwk, hjwk, x, hx, pk, hpk, hlen, sig, hsig,
      hslen, hverify, pbytes, hp, claims, hclaims, hpresent, hiss, haud, exp, hexp, iat, hiat, hlate, hearly⟩
    simp only [Bool.not_eq_eq_eq_not, Bool.not_false, eqStr_iff, Bool.or_eq_false_iff,
      Bool.and_eq_true, decide_eq_true_eq, decide_eq_false_iff_not, List.all_eq_true,
      Option.isSome_eq_false_iff, Option.isNone_iff_eq_none] at *
    rw [allowance] at hlate hearly
    refine ⟨hbytes, h, kid, jwk, x, pk, sig, pbytes, claims, ⟨hh, hparse, halg, ?_, htyp.2, hkid⟩,
      ⟨hjwk, hx, hpk, hlen.1, hlen.2⟩, ⟨hsig, hslen, hverify⟩, hp, hclaims,
      hpresent, hiss, haud, ⟨exp, hexp, by omega⟩, iat, hiat, by omega⟩
    intro t ht
    simpa [ht, eqStr_iff] using htyp.1
  · rintro ⟨hbytes, h, kid, jwk, x, pk, sig, pbytes, claims, ⟨hh, hparse, hheader⟩,
      ⟨hjwk, hx, hpk, hlen, hkey⟩, ⟨hsig, hslen, hverify⟩, hp, hclaims, hok⟩
    obtain ⟨exp, hexp, hlate⟩ := hok.exp
    obtain ⟨iat, hiat, hearly⟩ := hok.iat
    refine ⟨hbytes, hh, h, hparse, ?_, ?_, kid, hheader.kid, jwk, hjwk, x, hx, pk, hpk, ?_, sig, hsig, ?_, ?_,
      pbytes, hp, claims, hclaims, ?_, ?_, ?_, exp, hexp, iat, hiat, ?_, ?_⟩
    · simp [eqStr_iff, hheader.alg]
    · rw [hheader.crit, Bool.or_eq_false_iff]
      refine ⟨?_, rfl⟩
      cases ht : h.get "typ" with
      | none => rfl
      | some t => simp [eqStr_iff, hheader.typ t ht]
    · simp [hlen, hkey]
    · simp [hslen]
    · simp [hverify]
    · simpa using hok.present
    · simp [eqStr_iff, hok.issuer]
    · simp [eqStr_iff, hok.audience]
    · rw [decide_eq_false_iff_not, allowance]
      omega
    · rw [decide_eq_false_iff_not, allowance]
      omega

/-! ## Segments -/

@[simp] theorem toList_segment (bytes : Bytes) : (segment bytes).toList = Base64.encode bytes :=
  String.toList_ofList

theorem decode_segment (bytes : Bytes) : Base64.decode (segment bytes).toList = some bytes := by
  rw [toList_segment, Base64.decode_encode]

theorem eq_segment {s : String} {bytes : Bytes} (h : Base64.decode s.toList = some bytes) :
    s = segment bytes := by
  rw [segment, Base64.encode_of_decode h, String.ofList_toList]

theorem split_segments (a b c : Bytes) :
    split '.' (segment a ++ "." ++ segment b ++ "." ++ segment c) =
      [segment a, segment b, segment c] := by
  have hdots : ∀ l ∈ [Base64.encode a, Base64.encode b, Base64.encode c], '.' ∉ l := by
    intro l hl
    simp only [List.mem_cons, List.not_mem_nil, or_false] at hl
    rcases hl with rfl | rfl | rfl <;> exact Base64.dot_not_mem_encode _
  have hsplit := List.splitOn_intercalate '.' hdots (by simp)
  have hjoined : (segment a ++ "." ++ segment b ++ "." ++ segment c).toList =
      List.intercalate ['.'] [Base64.encode a, Base64.encode b, Base64.encode c] := by
    simp [List.intercalate, List.intersperse]
  rw [split, hjoined, hsplit]
  rfl

theorem eq_of_split {token a b c : String} (h : split '.' token = [a, b, c]) :
    token = a ++ "." ++ b ++ "." ++ c := by
  have hpieces : (token.toList.splitOn '.').map String.ofList = [a, b, c] := h
  have hlists : token.toList.splitOn '.' = [a.toList, b.toList, c.toList] := by
    have hback := congrArg (List.map String.toList) hpieces
    simpa [Function.comp_def] using hback
  have hjoin : List.intercalate ['.'] (token.toList.splitOn '.') = token.toList :=
    List.intercalate_splitOn '.'
  apply String.toList_inj.1
  rw [← hjoin, hlists]
  simp [List.intercalate, List.intersperse]

/-- A signature is what follows the last dot. -/
theorem segment_inj {text text' : String} {a b : Bytes}
    (h : text ++ "." ++ segment a = text' ++ "." ++ segment b) : text = text' := by
  have hrev := congrArg (fun s : String => s.toList.reverse) h
  simp only [String.toList_append, toList_segment, List.reverse_append] at hrev
  have hdot : ".".toList.reverse = ['.'] := by decide
  have hno : ∀ bytes, ∀ c ∈ (Base64.encode bytes).reverse, decide (c ≠ '.') = true := by
    intro bytes c hc
    rw [decide_eq_true_iff]
    rintro rfl
    exact Base64.dot_not_mem_encode bytes (List.mem_reverse.1 hc)
  have hwhile := congrArg (List.takeWhile fun c => decide (c ≠ '.')) hrev
  rw [hdot, List.takeWhile_append_of_pos (hno a), List.takeWhile_append_of_pos (hno b)] at hwhile
  simp only [List.cons_append, List.nil_append, ne_eq, not_true_eq_false, decide_false,
    Bool.false_eq_true, not_false_eq_true, List.takeWhile_cons_of_neg, List.append_nil] at hwhile
  rw [hwhile] at hrev
  have hcancel := List.append_cancel_left (List.append_cancel_left hrev)
  exact String.toList_inj.1 (List.reverse_inj.1 hcancel)

/-- The verifier cuts the signed text out of the token. -/
theorem take_signed (text signature : String) :
    (asBytes (text ++ "." ++ signature)).take
        ((asBytes (text ++ "." ++ signature)).length - (asBytes signature).length - 1) = asBytes text := by
  have hdot : (asBytes ".").length = 1 := by decide
  rw [asBytes_append, asBytes_append, List.append_assoc]
  apply List.take_left'
  simp only [List.length_append, hdot]
  omega

/-! ## End to end -/

theorem headerOk_iff {h : Json} {kid kid' : String}
    (hread : ∀ key, h.get key = ((header kid).lookup key).map Json.Written.value) :
    HeaderOk h kid' ↔ kid' = kid := by
  have halg : h.get "alg" = some (.string "EdDSA") := by simp [hread, header, Json.Written.value]
  have htyp : h.get "typ" = some (.string "JWT") := by
    simp [hread, header, List.lookup_cons, Json.Written.value]
  have hcrit : h.get "crit" = none := by simp [hread, header, List.lookup_cons]
  have hkid : h.get "kid" = some (.string kid) := by
    simp [hread, header, List.lookup_cons, Json.Written.value]
  constructor
  · intro hok
    simpa [Json.index, hkid, Json.asStr, eq_comm] using hok.kid
  · rintro rfl
    refine ⟨by simp [Json.index, halg, Json.asStr], ?_, hcrit, by simp [Json.index, hkid, Json.asStr]⟩
    intro t ht
    rw [htyp] at ht
    obtain rfl := Option.some.inj ht
    rfl

/-- The claims are for this verifier, and it is their time. -/
structure Claims.Passes (c : Claims) (v : Verifier) (now : ℤ) : Prop where
  iss : c.iss = v.issuer
  aud : c.aud = v.audience
  exp : now - 300 < c.exp
  iat : c.iat ≤ now + 300

theorem claimsOk_iff {v : Verifier} {c : Claims} {claims : Json} {now : ℤ}
    (hread : ∀ key, claims.get key = (c.members.lookup key).map Json.Written.value) :
    ClaimsOk v claims now ↔ c.Passes v now := by
  have hpresent : ∀ name ∈ required, (claims.get name).isSome := by
    cases c <;> simp [required, hread, Claims.members, List.lookup_cons]
  have hiss : claims.get "iss" = some (.string c.iss) := by
    cases c <;> simp [hread, Claims.members, Json.Written.value, Claims.iss]
  have haud : claims.get "aud" = some (.string c.aud) := by
    cases c <;> simp [hread, Claims.members, List.lookup_cons, Json.Written.value, Claims.aud]
  have hexp : claims.get "exp" = some (.int c.exp) := by
    cases c <;> simp [hread, Claims.members, List.lookup_cons, Json.Written.value, Claims.exp]
  have hiat : claims.get "iat" = some (.int c.iat) := by
    cases c <;> simp [hread, Claims.members, List.lookup_cons, Json.Written.value, Claims.iat]
  constructor
  · intro h
    obtain ⟨exp, he, hlate⟩ := h.exp
    obtain ⟨iat, hi, hearly⟩ := h.iat
    simp only [Json.index, hexp, hiat, Option.getD_some, Json.asI64, Option.some.injEq] at he hi
    subst he hi
    refine ⟨?_, ?_, hlate, hearly⟩
    · simpa [Json.index, hiss, Json.asStr] using h.issuer
    · simpa [Json.index, haud, Json.asStr] using h.audience
  · intro h
    refine ⟨hpresent, ?_, ?_, ⟨c.exp, ?_, h.exp⟩, ⟨c.iat, ?_, h.iat⟩⟩
    · simp [Json.index, hiss, Json.asStr, h.iss]
    · simp [Json.index, haud, Json.asStr, h.aud]
    · simp [Json.index, hexp, Json.asI64]
    · simp [Json.index, hiat, Json.asI64]

theorem jwkOf_jwksValue (set : List (String × Bytes)) (kid : String) :
    jwkOf (jwksValue set) kid = (set.find? fun key => decide (key.1 = kid)).map jwkValue := by
  have harray : ((jwksValue set).index "keys").asArray = some (set.map jwkValue) := by
    simp [jwksValue, Json.index, Json.get, Json.asArray]
  have hkid : ∀ key : String × Bytes, ((jwkValue key).index "kid").eqStr kid = decide (key.1 = kid) := by
    intro key
    simp [jwkValue, Json.index, Json.get, List.lookup_cons, Json.eqStr, Json.asStr]
  rw [jwkOf, harray, Option.bind_some, List.find?_map]
  simp only [Function.comp_def, hkid]

theorem x_jwkValue (key : String × Bytes) : ((jwkValue key).index "x").asStr = some (segment key.2) := by
  simp [jwkValue, Json.index, Json.get, List.lookup_cons, Json.asStr]

/-- Nobody else signed this token with a key of the broker. -/
def Unforged (ed : Ed25519) (s : Service) (token : String) : Prop :=
  ∀ text sig, token = text ++ "." ++ segment sig → ∀ k ∈ s.keys.db.signingKey,
    ed.verify k.publicKey (asBytes text) sig = true → ∃ g ∈ s.issued, signedText g.kid g.claims = text

/-- Nor is a token of the broker's own forged. -/
theorem unforged_token (env : Env) {s : Service} {g : Issued} (hg : g ∈ s.issued) :
    Unforged env.ed s (g.token env) := by
  intro text sig htoken k hk hverify
  exact ⟨g, hg, segment_inj htoken⟩

/-- The verifiers read what the broker wrote. -/
def AllRead (fromSlice : Bytes → Option Json) (s : Service) : Prop :=
  ∀ g ∈ s.issued, Json.ReadBack fromSlice (header g.kid) ∧ Json.ReadBack fromSlice g.claims.members

section
variable {env : Env} {v : Verifier} {s : Service} {set : List (String × Bytes)} {g : Issued} {now : ℤ}

/-- **A signed text with any signature.** -/
theorem referenceVerify_signed (hv : v.ed = env.ed) (hc : Consistent env s)
    (hread : AllRead v.fromSlice s) (hset : set ∈ s.served) (hg : g ∈ s.issued) (sig : Bytes) :
    referenceVerify v (jwksValue set) (signedText g.kid g.claims ++ "." ++ segment sig) now = .ok () ↔
      g.kid ∈ set.map (·.1) ∧ g.claims.Passes v now ∧ sig.length = 64 ∧
        env.ed.verify (env.ed.verifyingKey g.seed) (asBytes (signedText g.kid g.claims)) sig = true := by
  obtain ⟨⟨h, hparse, hget⟩, claims, hclaims, hcget⟩ := hread g hg
  have hsplit : split '.' (signedText g.kid g.claims ++ "." ++ segment sig) =
      [segment (Json.toVec (header g.kid)), segment (Json.toVec g.claims.members), segment sig] :=
    split_segments ..
  -- what the set has under the id is the key that signed
  have hkey : ∀ key, key ∈ set → key.1 = g.kid → key.2 = env.ed.verifyingKey g.seed := by
    rintro ⟨kid, pk⟩ hmem rfl
    exact hc.publicKey_eq (hc.served set hset _ hmem) (hc.issued g hg)
  rw [referenceVerify_iff hsplit]
  simp only [decode_segment, take_signed, jwkOf_jwksValue, Option.some.injEq]
  constructor
  · rintro ⟨_, h', kid, jwk, x, pk, _, _, claims', ⟨rfl, hp, hheader⟩, ⟨hjwk, hx, hpk, -, -⟩,
      ⟨rfl, hlen, hverify⟩, rfl, hc', hok⟩
    obtain rfl := Option.some.inj (hparse.symm.trans hp)
    obtain rfl := Option.some.inj (hclaims.symm.trans hc')
    obtain rfl := (headerOk_iff hget).1 hheader
    obtain ⟨key, hfind, rfl⟩ := Option.map_eq_some_iff.1 hjwk
    have hmem := List.mem_of_find?_eq_some hfind
    have hkid : key.1 = g.kid := by simpa using List.find?_some hfind
    rw [x_jwkValue, Option.some.injEq] at hx
    subst hx
    rw [decode_segment, Option.some.injEq] at hpk
    subst hpk
    rw [hkey key hmem hkid, hv] at hverify
    exact ⟨List.mem_map.2 ⟨key, hmem, hkid⟩, (claimsOk_iff hcget).1 hok, hlen, hverify⟩
  · rintro ⟨hmem, hpasses, hlen, hverify⟩
    obtain ⟨key, hmem, hkid⟩ := List.mem_map.1 hmem
    have hsome : (set.find? fun key => decide (key.1 = g.kid)).isSome := by
      rw [List.find?_isSome]
      exact ⟨key, hmem, by simpa using hkid⟩
    obtain ⟨key', hfind⟩ := Option.isSome_iff_exists.1 hsome
    have hpk := hkey key' (List.mem_of_find?_eq_some hfind) (by simpa using List.find?_some hfind)
    refine ⟨_, h, g.kid, jwkValue key', _, key'.2, sig, _, claims,
      ⟨rfl, hparse, (headerOk_iff hget).2 rfl⟩, ⟨by rw [hfind, Option.map_some], x_jwkValue key',
        decode_segment _, ?_, ?_⟩, ⟨rfl, hlen, ?_⟩, rfl, hclaims, (claimsOk_iff hcget).2 hpasses⟩
    · rw [hpk, env.ed.length_verifyingKey]
    · rw [hpk, hv, env.ed.isKey_verifyingKey]
    · rw [hpk, hv]
      exact hverify

/-- An accepted token is a signed text with a signature. -/
theorem issued_of_ok (hv : v.ed = env.ed) (hc : Consistent env s) (hset : set ∈ s.served)
    {token : String} (hun : Unforged env.ed s token)
    (h : referenceVerify v (jwksValue set) token now = .ok ()) :
    ∃ g ∈ s.issued, ∃ sig, token = signedText g.kid g.claims ++ "." ++ segment sig := by
  have hthree : ∃ a b c, split '.' token = [a, b, c] := by
    unfold referenceVerify at h
    split at h
    · rename_i a b c hsplit
      exact ⟨a, b, c, hsplit⟩
    · cases h
  obtain ⟨a, b, c, hsplit⟩ := hthree
  obtain ⟨_, _, kid, jwk, x, pk, sig, _, _, -, ⟨hjwk, hx, hpk, -, -⟩, ⟨hsig, -, hverify⟩, -⟩ :=
    (referenceVerify_iff hsplit).1 h
  obtain rfl := eq_segment hsig
  obtain rfl := eq_of_split hsplit
  rw [jwkOf_jwksValue] at hjwk
  obtain ⟨key, hfind, rfl⟩ := Option.map_eq_some_iff.1 hjwk
  rw [x_jwkValue, Option.some.injEq] at hx
  subst hx
  rw [decode_segment, Option.some.injEq] at hpk
  subst hpk
  obtain ⟨k, hk, hidentity⟩ := List.mem_map.1 (hc.served set hset key (List.mem_of_find?_eq_some hfind))
  rw [take_signed, hv, ← hidentity] at hverify
  obtain ⟨g, hg, htext⟩ := hun _ sig rfl k hk hverify
  exact ⟨g, hg, sig, by rw [htext]⟩

end

/-- **A token is accepted iff the broker issued it.**  Whatever the broker did
    with its keys, whatever set of keys the verifier holds of all that were
    served, and at any time:
    * a token that nobody forged is accepted iff it is a text that the broker
      signed, with a signature of its key, the key is in the set, and the claims
      are for this verifier and current;
    * so is every token of the broker, iff its key is in the set and its claims
      are for this verifier and current. -/
theorem accepts_iff_issued (env : Env) (v : Verifier) (hv : v.ed = env.ed) (db : Db)
    (hdb : db.signingKey = []) (as : List Action)
    (hread : AllRead v.fromSlice (run (Service.step env) (.boot db) as)) :
    ∀ set ∈ (run (Service.step env) (.boot db) as).served, ∀ now,
      (∀ token, Unforged env.ed (run (Service.step env) (.boot db) as) token →
        (referenceVerify v (jwksValue set) token now = .ok () ↔
          ∃ g ∈ (run (Service.step env) (.boot db) as).issued, ∃ sig,
            token = signedText g.kid g.claims ++ "." ++ segment sig ∧ g.kid ∈ set.map (·.1) ∧
            g.claims.Passes v now ∧ sig.length = 64 ∧ env.ed.verify (env.ed.verifyingKey g.seed)
              (asBytes (signedText g.kid g.claims)) sig = true)) ∧
      ∀ g ∈ (run (Service.step env) (.boot db) as).issued,
        (referenceVerify v (jwksValue set) (g.token env) now = .ok () ↔
          g.kid ∈ set.map (·.1) ∧ g.claims.Passes v now) := by
  intro set hset now
  have hc : Consistent env (run (Service.step env) (.boot db) as) := .run hdb as
  constructor
  · intro token hun
    constructor
    · intro h
      obtain ⟨g, hg, sig, rfl⟩ := issued_of_ok hv hc hset hun h
      exact ⟨g, hg, sig, rfl, (referenceVerify_signed hv hc hread hset hg sig).1 h⟩
    · rintro ⟨g, hg, sig, rfl, h⟩
      exact (referenceVerify_signed hv hc hread hset hg sig).2 h
  · intro g hg
    have htoken : g.token env = signedText g.kid g.claims ++ "." ++
        segment (env.ed.sign g.seed (asBytes (signedText g.kid g.claims))) := rfl
    rw [htoken, referenceVerify_signed hv hc hread hset hg, env.ed.length_sign, env.ed.verify_sign]
    simp

/-- A scheme that signs with a sum. -/
def sumScheme : Ed25519 where
  verifyingKey seed := (seed ++ List.replicate 32 0).take 32
  kidOf _ := "k1"
  isKey pk := pk.length = 32
  sign seed message := (seed ++ List.replicate 32 0).take 32 ++ List.replicate 32 message.sum
  verify pk message signature := signature = pk ++ List.replicate 32 message.sum
  length_verifyingKey := by simp
  length_sign := by simp
  isKey_verifyingKey := by simp
  verify_sign := by simp

/-- The claims of a user token for an hour. -/
def hourClaims : Claims :=
  .user ⟨"https://broker.test", "auth0|user-42", "sid_1", "logless", 3700, 100, "B", "user", "acme",
    ["viewer"], ["*"]⟩

theorem toVec_hourClaims_ne : Json.toVec hourClaims.members ≠ Json.toVec (header "k1") := by
  rw [Json.toVec, Json.toVec, Ne, asBytes_inj]
  intro h
  have hthird := congrArg (fun s : String => s.toList[2]?) h
  simp [hourClaims, Claims.members, header, jsonString, jsonChar] at hthird

/-- It parses the header and the claims of one token. -/
def parseSample (bytes : Bytes) : Option Json :=
  if bytes = Json.toVec (header "k1") then some (.object ((header "k1").map fun p => (p.1, p.2.value)))
  else if bytes = Json.toVec hourClaims.members then
    some (.object (hourClaims.members.map fun p => (p.1, p.2.value)))
  else none

theorem readBack_sample : Json.ReadBack parseSample (header "k1") ∧
    Json.ReadBack parseSample hourClaims.members := by
  constructor
  · exact ⟨_, if_pos rfl, Json.get_object_map _⟩
  · refine ⟨_, ?_, Json.get_object_map _⟩
    rw [parseSample, if_neg toVec_hourClaims_ne, if_pos rfl]

/-- A token of the broker's first key is good for its hour and five minutes. -/
theorem accepts_first_token :
    let env : Env := ⟨sumScheme, ⟨1, [1]⟩, {}⟩
    let v : Verifier := ⟨sumScheme, parseSample, "https://broker.test", "logless"⟩
    let g : Issued := ⟨"k1", List.replicate 32 7, hourClaims⟩
    let set := [("k1", List.replicate 32 7)]
    referenceVerify v (jwksValue set) (g.token env) 3999 = .ok () ∧
      referenceVerify v (jwksValue set) (g.token env) 4000 ≠ .ok () ∧
      ∃ sig, g.token env = signedText g.kid g.claims ++ "." ++ segment sig := by
  intro env v g set
  let as := [Action.keys (.bootstrap ⟨100⟩ (flatSeed 7)), .sign ⟨100⟩ hourClaims, .fetch ⟨100⟩]
  have hissued : (run (Service.step env) (.boot (.fresh ⟨0⟩)) as).issued = [g] := by decide
  have hserved : (run (Service.step env) (.boot (.fresh ⟨0⟩)) as).served = [set] := by decide
  have hread : AllRead v.fromSlice (run (Service.step env) (.boot (.fresh ⟨0⟩)) as) := by
    intro g' hg'
    rw [hissued, List.mem_singleton] at hg'
    subst hg'
    exact readBack_sample
  have haccepts := accepts_iff_issued env v rfl (.fresh ⟨0⟩) rfl as hread set (by simp [hserved])
  have hg : g ∈ (run (Service.step env) (.boot (.fresh ⟨0⟩)) as).issued := by simp [hissued]
  have hok : referenceVerify v (jwksValue set) (g.token env) 3999 = .ok () :=
    ((haccepts 3999).2 g hg).2 ⟨by decide, by decide, by decide, by decide, by decide⟩
  refine ⟨hok, ?_, ?_⟩
  · intro h
    exact absurd (((haccepts 4000).2 g hg).1 h).2.exp (by decide)
  · obtain ⟨g', hg', sig, htoken, -⟩ := ((haccepts 3999).1 _ (unforged_token env hg)).1 hok
    rw [hissued, List.mem_singleton] at hg'
    subst hg'
    exact ⟨sig, htoken⟩

end Jwt

end SessionBroker
