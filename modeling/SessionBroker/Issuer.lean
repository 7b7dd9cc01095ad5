/-
  The issuer (`issuer/mod.rs`): the life of its signing keys.

  * `bootstrap`, `rotate`, `prune_retired` and the `rotate-signing-key` command
    on the database, each write with its tier A row;
  * `withKeys`: what the running broker holds in memory, at most a minute old;
  * `KeyMove` is what any of them does to the table: it creates the first key,
    adds one and dates those before it, or marks a retired one removed.
-/
import SessionBroker.Keys
import SessionBroker.Writer
import Mathlib.Logic.Relation

namespace SessionBroker

open Table Relation

/-- `RELOAD_INTERVAL_SECS`. -/
def reloadIntervalSecs : ℕ := 60

/-- `RETIRE_MARGIN_SECS`. -/
def retireMarginSecs : ℕ := 300

/-- `saturating_add` of a `u64`. -/
def saturatingAddU64 (a b : ℕ) : ℕ := min (a + b) (2 ^ 64 - 1)

structure KeyPolicy where
  publishLeadSecs : ℕ := 86400
  maxTtlSecs : ℕ := 86400
deriving DecidableEq, Repr

/-- How long after its successor activates a key stays published. -/
def KeyPolicy.keepSecs (policy : KeyPolicy) : ℕ :=
  saturatingAddU64 policy.maxTtlSecs retireMarginSecs

/-- What `rotate` did. -/
structure Rotation where
  kid : String
  activateAt : ℤ
  previousRetireAt : ℤ
  immediate : Bool
deriving DecidableEq, Repr

/-- What an issuer is opened with. -/
structure IssuerEnv where
  scheme : KeyScheme
  ring : KeyRing
  policy : KeyPolicy

/-- A tier A row on a signing key. -/
def signingKeyEvent (action actorKind : String) (actorId : Option String) (kid : String)
    (now : Timestamp) (detail : Option (List (String × JsonValue))) : AuditRow where
  at_ := now
  action
  outcome := "success"
  actorKind
  actorId
  subject := none
  sid := none
  custodyId := none
  keyId := some kid
  reason := none
  clientIpPrefix := none
  detail

namespace IssuerEnv

variable (env : IssuerEnv)

/-- `write`: one mutation with its row. -/
def write (db : Db) (write : AdminWrite) (event : AuditRow) : Option (Db × Bool) :=
  db.applyAudited env.ring write (some event)

/-- `reload`. -/
def reload (db : Db) (now : Timestamp) : KeyCache := db.freshCache env.scheme env.ring now

/-- `bootstrap`: the first key, if the table has never had one. -/
def bootstrap (db : Db) (now : Timestamp) (seed : Seed) : Option (Db × KeyCache) :=
  if db.listSigningKeys.isEmpty then
    let key := env.scheme.generate seed
    let event := signingKeyEvent "signing_key.created" "system" none key.kid now
      (some [("activate_at", .num now.secs)])
    (env.write db (.insertSigningKey key now) event).map fun r => (r.1, env.reload r.1 now)
  else some (db, env.reload db now)

/-- `rotate`, up to the reload. -/
def rotate (db : Db) (now : Timestamp) (activateInSecs : Option ℕ) (actorId : String)
    (seed : Seed) : Option (Db × Rotation) :=
  let lead := activateInSecs.getD env.policy.publishLeadSecs
  let immediate := decide (lead = 0)
  let activateAt := now.plusSecs lead
  let retireAt := if immediate then now else activateAt.plusSecs env.policy.keepSecs
  let key := env.scheme.generate seed
  let rotation : Rotation := ⟨key.kid, activateAt.secs, retireAt.secs, immediate⟩
  let event := signingKeyEvent "signing_key.rotated" "admin" (some actorId) key.kid now
    (some [("activate_at", .num rotation.activateAt),
      ("previous_retire_at", .num rotation.previousRetireAt), ("immediate", .bool immediate)])
  (env.write db (.rotateSigningKey key now activateAt retireAt) event).map fun r => (r.1, rotation)

/-- One turn of the loop in `prune_retired`. -/
def removeDue (now : Timestamp) (r : Db × ℕ) (kid : String) : Db × ℕ :=
  match env.write r.1 (.removeRetiredSigningKey kid now)
    (signingKeyEvent "signing_key.removed" "system" none kid now none) with
  | some (db, true) => (db, r.2 + 1)
  | some (db, false) => (db, r.2)
  | none => r

/-- `prune_retired`, up to the reload: the database and how many keys went. -/
def pruneRetired (db : Db) (now : Timestamp) : Db × ℕ :=
  (db.retiredSigningKeysDue now).foldl (env.removeDue now) (db, 0)

/-- `with_keys`: the keys in memory, read again once they are a minute old. -/
def withKeys (db : Db) (cache : KeyCache) (now : Timestamp) : KeyCache :=
  if cache.loadedAt.all fun at_ => decide (reloadIntervalSecs ≤ now.since at_) then
    env.reload db now
  else cache

/-- `signing_kid`. -/
def signingKid (db : Db) (cache : KeyCache) (now : Timestamp) : Option String :=
  ((env.withKeys db cache now).signing now).map (·.1)

/-- `jwks`: the key ids and public keys. -/
def jwks (db : Db) (cache : KeyCache) (now : Timestamp) : List (String × Bytes) :=
  ((env.withKeys db cache now).published now).map fun row => (row.kid, row.publicKey)

end IssuerEnv

/-! ## The service -/

/-- The store, and what the running broker holds of its keys. -/
structure KeyService where
  db : Db
  cache : Option KeyCache
deriving DecidableEq, Repr

inductive KeyServiceOp where
  /-- The broker boots. -/
  | bootstrap (now : Timestamp) (seed : Seed)
  /-- `rotate`, by the broker. -/
  | rotate (now : Timestamp) (activateInSecs : Option ℕ) (actorId : String) (seed : Seed)
  /-- `session-broker rotate-signing-key`, in a process of its own. -/
  | command (now : Timestamp) (immediate : Bool) (seed : Seed)
  /-- The hourly prune. -/
  | pruneRetired (now : Timestamp)
  | reload (now : Timestamp)
  /-- Any use of the keys: a signature, a fetch of the key set. -/
  | withKeys (now : Timestamp)

namespace KeyServiceOp

def now : KeyServiceOp → Timestamp
  | bootstrap now _ | rotate now _ _ _ | command now _ _ | pruneRetired now | reload now |
    withKeys now => now

/-- The lead of a rotation. -/
def lead? (policy : KeyPolicy) : KeyServiceOp → Option ℕ
  | rotate _ activateInSecs _ _ => some (activateInSecs.getD policy.publishLeadSecs)
  | command _ immediate _ => some (if immediate then 0 else policy.publishLeadSecs)
  | _ => none

end KeyServiceOp

namespace KeyService

variable (env : IssuerEnv)

def step (s : KeyService) : KeyServiceOp → KeyService
  | .bootstrap now seed =>
    match env.bootstrap s.db now seed with
    | some (db, cache) => ⟨db, some cache⟩
    | none => s
  | .rotate now activateInSecs actorId seed =>
    match env.rotate s.db now activateInSecs actorId seed with
    | some (db, _) => ⟨db, s.cache.map fun _ => env.reload db now⟩
    | none => s
  | .command now immediate seed =>
    match env.rotate s.db now (if immediate then some 0 else none) "cli" seed with
    | some (db, _) => { s with db }
    | none => s
  | .pruneRetired now =>
    let r := env.pruneRetired s.db now
    ⟨r.1, s.cache.map fun cache => if 0 < r.2 then env.reload r.1 now else cache⟩
  | .reload now => { s with cache := s.cache.map fun _ => env.reload s.db now }
  | .withKeys now => { s with cache := s.cache.map (env.withKeys s.db · now) }

end KeyService

end SessionBroker
