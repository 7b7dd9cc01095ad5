/-
  The admin lane (`AdminWrite` of `store/writer.rs`) and its statements in
  `store/repo.rs`: API keys, signing keys, tenants, principals with their
  secrets, user grants and identity providers.

  * A statement that reports whether it applied returns the database with a
    Boolean; `none` stands for the error SQLite raises on a constraint;
  * `Db.applyAdmin` is the `match` of `apply_batch` on an `AdminWrite`.
-/
import SessionBroker.Db

namespace SessionBroker

/-- A freshly generated key, its seed in the clear. -/
structure NewSigningKey where
  kid : String
  publicKey : Bytes
  seed : Bytes
deriving DecidableEq, Repr

structure NewSecret where
  secretId : String
  hash : Bytes
  expiresAt : Option Timestamp
deriving DecidableEq, Repr

/-- `max_ttl_secs` is a `u64`. -/
structure NewPrincipal where
  principalId : String
  tenantId : String
  name : String
  kind : String
  scopes : List String
  indexes : List String
  audience : String
  maxTtlSecs : ℕ
  createdBy : Option String
  secret : NewSecret
deriving DecidableEq, Repr

structure NewUserGrant where
  sub : String
  tenantId : String
  roles : List String
  indexes : List String
  createdBy : Option String
deriving DecidableEq, Repr

structure NewProvider where
  id : String
  preset : String
  displayName : String
  issuerUrl : String
  clientId : String
  clientSecret : Bytes
  scopes : List String
  enabled : Bool
deriving DecidableEq, Repr

/-- `clientSecret := none` leaves the sealed value alone. -/
structure ProviderUpdate where
  id : String
  preset : String
  displayName : String
  issuerUrl : String
  clientId : String
  clientSecret : Option Bytes
  scopes : List String
  enabled : Bool
deriving DecidableEq, Repr

namespace Db

open Table

/-! ## API keys -/

/-- `insert_api_key`: `key_id` is the primary key, `key_hash` unique. -/
def insertApiKey (db : Db) (keyId name : String) (keyHash : Bytes) (createdBy : Option String)
    (now : Timestamp) : Option Db :=
  if db.apiKey.any fun k => k.keyHash = keyHash then none
  else (insertRow (·.keyId) db.apiKey ⟨keyId, name, keyHash, now, createdBy, none, none⟩).map
    fun apiKey => { db with apiKey }

/-- `revoke_api_key`. -/
def revokeApiKey (db : Db) (keyId : String) (now : Timestamp) : Db × Bool :=
  let live := fun k : ApiKeyRecord => decide (k.keyId = keyId ∧ k.revokedAt = none)
  ({ db with apiKey := updateWhere live (fun k => { k with revokedAt := some now }) db.apiKey },
    db.apiKey.any live)

/-- `touch_api_key`. -/
def touchApiKey (db : Db) (keyId : String) (now : Timestamp) : Db :=
  { db with apiKey :=
      updateWhere (fun k => k.keyId = keyId) (fun k => { k with lastUsedAt := some now }) db.apiKey }

/-! ## Signing keys -/

/-- `insert_signing_key`. -/
def insertSigningKey (ring : KeyRing) (db : Db) (key : NewSigningKey) (now activateAt : Timestamp) :
    Option Db :=
  (insertRow (·.kid) db.signingKey {
    kid := key.kid
    publicKey := key.publicKey
    seedSealed := ring.seal key.seed (signingSeedContext key.kid)
    createdAt := now
    activateAt
    retireAt := none
    removedAt := none }).map fun signingKey => { db with signingKey }

end Db

/-- `removed_at IS NULL AND (retire_at IS NULL OR retire_at > ?1)`. -/
def SigningKeyRecord.outlives (k : SigningKeyRecord) (at_ : Timestamp) : Bool :=
  decide (k.removedAt = none) && k.retireAt.all fun r => decide (at_ < r)

theorem SigningKeyRecord.not_outlives {k : SigningKeyRecord} (h : k.removedAt = none)
    {at_ : Timestamp} : k.outlives at_ = false ↔ ∃ r, k.retireAt = some r ∧ r ≤ at_ := by
  cases hr : k.retireAt <;> simp [outlives, h, hr]

/-- The two `UPDATE`s of `rotate_signing_key`: every key that would outlive
    `retireAt` ends there, and one still due to activate after the new key ends
    at once. -/
def retireBefore (now activateAt retireAt : Timestamp) (keys : List SigningKeyRecord) :
    List SigningKeyRecord :=
  let dated := Table.updateWhere (fun k => k.outlives retireAt)
    (fun k => { k with retireAt := some retireAt }) keys
  Table.updateWhere (fun k => k.outlives now && decide (activateAt < k.activateAt))
    (fun k => { k with retireAt := some now }) dated

/-- After a rotation every other key ends by `retireAt`, and at once if it was
    due to activate after the new one. -/
theorem retireBefore_dated {now activateAt retireAt : Timestamp} {keys : List SigningKeyRecord}
    {k : SigningKeyRecord} (hk : k ∈ retireBefore now activateAt retireAt keys)
    (hr : k.removedAt = none) :
    ∃ r, k.retireAt = some r ∧ r ≤ retireAt ∧ (activateAt < k.activateAt → r ≤ now) := by
  obtain ⟨k₁, hk₁, rfl⟩ := Table.mem_updateWhere.1 hk
  have hr₁ : k₁.removedAt = none := by
    split_ifs at hr <;> exact hr
  have hdated : ∃ r, k₁.retireAt = some r ∧ r ≤ retireAt := by
    obtain ⟨k₀, -, rfl⟩ := Table.mem_updateWhere.1 hk₁
    by_cases ho : k₀.outlives retireAt = true
    · rw [if_pos ho]
      exact ⟨retireAt, rfl, le_rfl⟩
    · rw [if_neg ho] at hr₁ ⊢
      exact (SigningKeyRecord.not_outlives hr₁).1 (Bool.eq_false_iff.2 ho)
  obtain ⟨r, hret, hle⟩ := hdated
  by_cases ho : k₁.outlives now = true
  · have hlt : now < r := by
      by_contra hge
      rw [(SigningKeyRecord.not_outlives hr₁).2 ⟨r, hret, not_lt.1 hge⟩] at ho
      exact Bool.false_ne_true ho
    by_cases ha : activateAt < k₁.activateAt
    · rw [if_pos (by simp [ho, ha])]
      exact ⟨now, rfl, (hlt.trans_le hle).le, fun _ => le_rfl⟩
    · rw [if_neg (by simp [ha])]
      exact ⟨r, hret, hle, fun h => absurd h ha⟩
  · rw [if_neg (by simp [ho])]
    refine ⟨r, hret, hle, fun _ => ?_⟩
    obtain ⟨r', hret', hle'⟩ := (SigningKeyRecord.not_outlives hr₁).1 (Bool.eq_false_iff.2 ho)
    rw [hret] at hret'
    cases hret'
    exact hle'

namespace Db

open Table

/-- `rotate_signing_key`. -/
def rotateSigningKey (ring : KeyRing) (db : Db) (key : NewSigningKey)
    (now activateAt retireAt : Timestamp) : Option Db :=
  insertSigningKey ring { db with signingKey := retireBefore now activateAt retireAt db.signingKey }
    key now activateAt

/-- `retire_at IS NOT NULL AND retire_at <= ?1` on a key not removed yet. -/
def retired (now : Timestamp) (k : SigningKeyRecord) : Bool :=
  decide (k.removedAt = none) && k.retireAt.any fun r => decide (r ≤ now)

/-- `retired_signing_keys_due`. -/
def retiredSigningKeysDue (db : Db) (now : Timestamp) : List String :=
  (db.signingKey.filter (retired now)).map (·.kid)

/-- `remove_retired_signing_key`. -/
def removeRetiredSigningKey (db : Db) (kid : String) (now : Timestamp) : Db × Bool :=
  let due := fun k : SigningKeyRecord => decide (k.kid = kid) && retired now k
  ({ db with signingKey :=
      updateWhere due (fun k => { k with removedAt := some now }) db.signingKey },
    db.signingKey.any due)

/-! ## Tenants -/

/-- `insert_tenant`: `INSERT OR IGNORE`. -/
def insertTenant (db : Db) (tenantId : String) (displayName : Option String) (now : Timestamp) :
    Db × Bool :=
  match insertRow (·.tenantId) db.tenant ⟨tenantId, displayName, now, none⟩ with
  | some tenant => ({ db with tenant }, true)
  | none => (db, false)

/-- `disable_tenant`. -/
def disableTenant (db : Db) (tenantId : String) (now : Timestamp) : Db × Bool :=
  let enabled := fun t : TenantRow => decide (t.tenantId = tenantId ∧ t.disabledAt = none)
  ({ db with tenant := updateWhere enabled (fun t => { t with disabledAt := some now }) db.tenant },
    db.tenant.any enabled)

/-- `enable_tenant`. -/
def enableTenant (db : Db) (tenantId : String) : Db × Bool :=
  let disabled := fun t : TenantRow => decide (t.tenantId = tenantId ∧ t.disabledAt ≠ none)
  ({ db with tenant := updateWhere disabled (fun t => { t with disabledAt := none }) db.tenant },
    db.tenant.any disabled)

/-- `tenant_is_disabled`. -/
def tenantIsDisabled (db : Db) (tenantId : String) : Bool :=
  (db.tenant.find? fun t => t.tenantId = tenantId).any fun t => t.disabledAt.isSome

/-- `ensure_tenant`: the tenant exists afterwards; is it enabled? -/
def ensureTenant (db : Db) (tenantId : String) (now : Timestamp) : Db × Bool :=
  let db := (db.insertTenant tenantId none now).1
  (db, !db.tenantIsDisabled tenantId)

/-! ## Principals and their secrets -/

/-- `insert_secret`: `secret_id` is the primary key, `secret_hash` unique,
    `principal_id` a foreign key. -/
def insertSecret (db : Db) (principalId : String) (secret : NewSecret) (now : Timestamp) :
    Option Db :=
  if db.principalSecret.any fun s => s.secretHash = secret.hash then none
  else if db.principal.any fun p => p.principalId = principalId then
    (insertRow (·.secretId) db.principalSecret
      ⟨secret.secretId, principalId, secret.hash, now, secret.expiresAt, none⟩).map
      fun principalSecret => { db with principalSecret }
  else none

/-- The `CHECK` on `principal.kind`. -/
def principalKinds : List String := ["ingest", "node", "replica", "reader", "admin"]

/-- `insert_principal`.  The `CHECK` comes before any uniqueness, and the
    conflict target `(tenant_id, name)` before the primary key; the foreign key
    onto `tenant` is what `ensure_tenant` has just seen to. -/
def insertPrincipal (db : Db) (p : NewPrincipal) (now : Timestamp) : Option (Db × Bool) :=
  let tenant := db.ensureTenant p.tenantId now
  let db := tenant.1
  if !tenant.2 then some (db, false)
  else if p.kind ∉ principalKinds then none
  else if db.principal.any fun q => q.tenantId = p.tenantId ∧ q.name = p.name then some (db, false)
  else
    ((insertRow (·.principalId) db.principal {
      principalId := p.principalId
      tenantId := p.tenantId
      name := p.name
      kind := p.kind
      scopes := p.scopes
      indexes := p.indexes
      audience := p.audience
      maxTtlSecs := asI64 p.maxTtlSecs
      createdAt := now
      createdBy := p.createdBy
      lastUsedAt := none
      revokedAt := none }).bind fun principal =>
        insertSecret { db with principal } p.principalId p.secret now).map fun db => (db, true)

/-- `revoke_principal`. -/
def revokePrincipal (db : Db) (principalId : String) (now : Timestamp) : Db × Bool :=
  let live := fun p : PrincipalRow => decide (p.principalId = principalId ∧ p.revokedAt = none)
  ({ db with principal := updateWhere live (fun p => { p with revokedAt := some now }) db.principal },
    db.principal.any live)

/-- `touch_principal`. -/
def touchPrincipal (db : Db) (principalId : String) (now : Timestamp) : Db :=
  { db with
    principal := updateWhere (fun p => p.principalId = principalId)
      (fun p => { p with lastUsedAt := some now }) db.principal }

/-- The `UPDATE` of `add_principal_secret`: the other live secrets that would
    outlive `at_` end there. -/
def expireOthers (db : Db) (principalId : String) (at_ : Timestamp) : Db :=
  { db with
    principalSecret := updateWhere
      (fun s => decide (s.principalId = principalId ∧ s.revokedAt = none) &&
        s.expiresAt.all fun e => decide (at_ < e))
      (fun s => { s with expiresAt := some at_ }) db.principalSecret }

/-- `add_principal_secret`. -/
def addPrincipalSecret (db : Db) (principalId : String) (secret : NewSecret)
    (expireOthersAt : Option Timestamp) (now : Timestamp) : Option (Db × Bool) :=
  if db.principal.any fun p => p.principalId = principalId ∧ p.revokedAt = none then
    let db := match expireOthersAt with
      | none => db
      | some at_ => db.expireOthers principalId at_
    (insertSecret db principalId secret now).map fun db => (db, true)
  else some (db, false)

/-- `revoke_principal_secret`. -/
def revokePrincipalSecret (db : Db) (principalId secretId : String) (now : Timestamp) : Db × Bool :=
  let live := fun s : SecretRecord =>
    decide (s.secretId = secretId ∧ s.principalId = principalId ∧ s.revokedAt = none)
  ({ db with principalSecret :=
      updateWhere live (fun s => { s with revokedAt := some now }) db.principalSecret },
    db.principalSecret.any live)

/-! ## User grants -/

/-- `insert_user_grant`: an upsert that only revives a revoked grant. -/
def insertUserGrant (db : Db) (g : NewUserGrant) (now : Timestamp) : Db × Bool :=
  let tenant := db.ensureTenant g.tenantId now
  let db := tenant.1
  if !tenant.2 then (db, false)
  else
    let mine := fun r : UserGrantRow => decide (r.sub = g.sub ∧ r.tenantId = g.tenantId)
    if db.userGrant.any mine then
      let revoked := fun r => mine r && r.revokedAt.isSome
      ({ db with userGrant := updateWhere revoked (fun r => { r with
          roles := g.roles
          indexes := g.indexes
          createdAt := now
          createdBy := g.createdBy
          revokedAt := none }) db.userGrant }, db.userGrant.any revoked)
    else ({ db with userGrant := db.userGrant ++
      [⟨g.sub, g.tenantId, g.roles, g.indexes, now, g.createdBy, none⟩] }, true)

/-- `revoke_user_grant`. -/
def revokeUserGrant (db : Db) (sub tenantId : String) (now : Timestamp) : Db × Bool :=
  let live := fun r : UserGrantRow =>
    decide (r.sub = sub ∧ r.tenantId = tenantId ∧ r.revokedAt = none)
  ({ db with userGrant := updateWhere live (fun r => { r with revokedAt := some now }) db.userGrant },
    db.userGrant.any live)

/-! ## Identity providers -/

/-- `insert_provider`: an upsert that only revives a tombstone of the same
    issuer. -/
def insertProvider (ring : KeyRing) (db : Db) (p : NewProvider) (now : Timestamp) : Db × Bool :=
  let clientSecretSealed := ring.seal p.clientSecret (providerSecretContext p.id)
  if db.identityProvider.any fun r => r.id = p.id then
    let revivable := fun r : ProviderRecord =>
      decide (r.id = p.id ∧ r.deletedAt ≠ none ∧ r.issuerUrl = p.issuerUrl)
    ({ db with identityProvider := updateWhere revivable (fun r => { r with
        preset := p.preset
        displayName := p.displayName
        clientId := p.clientId
        clientSecretSealed
        scopes := p.scopes
        enabled := p.enabled
        createdAt := now
        updatedAt := now
        deletedAt := none }) db.identityProvider }, db.identityProvider.any revivable)
  else ({ db with identityProvider := db.identityProvider ++
    [⟨p.id, p.preset, p.displayName, p.issuerUrl, p.clientId, clientSecretSealed, p.scopes,
      p.enabled, now, now, none⟩] }, true)

/-- `update_provider`. -/
def updateProvider (ring : KeyRing) (db : Db) (p : ProviderUpdate) (now : Timestamp) : Db × Bool :=
  let live := fun r : ProviderRecord => decide (r.id = p.id ∧ r.deletedAt = none)
  ({ db with identityProvider := updateWhere live (fun r => { r with
      preset := p.preset
      displayName := p.displayName
      issuerUrl := p.issuerUrl
      clientId := p.clientId
      clientSecretSealed := (p.clientSecret.map fun secret =>
        ring.seal secret (providerSecretContext p.id)).getD r.clientSecretSealed
      scopes := p.scopes
      enabled := p.enabled
      updatedAt := now }) db.identityProvider }, db.identityProvider.any live)

/-- `delete_provider`: a tombstone with its secret destroyed. -/
def deleteProvider (db : Db) (id : String) (now : Timestamp) : Db × Bool :=
  let live := fun r : ProviderRecord => decide (r.id = id ∧ r.deletedAt = none)
  ({ db with identityProvider := updateWhere live (fun r => { r with
      deletedAt := some now
      updatedAt := now
      enabled := false
      clientSecretSealed := .empty }) db.identityProvider }, db.identityProvider.any live)

end Db

/-! ## Admin writes -/

inductive AdminWrite where
  | insertApiKey (keyId name : String) (keyHash : Bytes) (createdBy : Option String)
      (now : Timestamp)
  | revokeApiKey (keyId : String) (now : Timestamp)
  | touchApiKey (keyId : String) (now : Timestamp)
  | insertSigningKey (key : NewSigningKey) (now : Timestamp)
  | rotateSigningKey (key : NewSigningKey) (now activateAt retireAt : Timestamp)
  | removeRetiredSigningKey (kid : String) (now : Timestamp)
  | insertTenant (tenantId : String) (displayName : Option String) (now : Timestamp)
  | disableTenant (tenantId : String) (now : Timestamp)
  | enableTenant (tenantId : String)
  | insertPrincipal (principal : NewPrincipal) (now : Timestamp)
  | revokePrincipal (principalId : String) (now : Timestamp)
  | touchPrincipal (principalId : String) (now : Timestamp)
  | addPrincipalSecret (principalId : String) (secret : NewSecret)
      (expireOthersAt : Option Timestamp) (now : Timestamp)
  | revokePrincipalSecret (principalId secretId : String) (now : Timestamp)
  | insertUserGrant (grant : NewUserGrant) (now : Timestamp)
  | revokeUserGrant (sub tenantId : String) (now : Timestamp)
  | insertProvider (provider : NewProvider) (now : Timestamp)
  | updateProvider (provider : ProviderUpdate) (now : Timestamp)
  | deleteProvider (id : String) (now : Timestamp)
deriving DecidableEq, Repr

/-- `AdminWrite::unapplied_reason`. -/
def AdminWrite.unappliedReason : AdminWrite → String
  | insertTenant .. | insertPrincipal .. | insertUserGrant .. | insertProvider .. => "conflict"
  | _ => "not_found"

/-- The `match` of `apply_batch` on an `AdminWrite`: the database and whether
    the write applied. -/
def Db.applyAdmin (ring : KeyRing) (db : Db) : AdminWrite → Option (Db × Bool)
  | .insertApiKey keyId name keyHash createdBy now =>
    (db.insertApiKey keyId name keyHash createdBy now).map (·, true)
  | .revokeApiKey keyId now => db.revokeApiKey keyId now
  | .touchApiKey keyId now => some (db.touchApiKey keyId now, true)
  | .insertSigningKey key now => (db.insertSigningKey ring key now now).map (·, true)
  | .rotateSigningKey key now activateAt retireAt =>
    (db.rotateSigningKey ring key now activateAt retireAt).map (·, true)
  | .removeRetiredSigningKey kid now => db.removeRetiredSigningKey kid now
  | .insertTenant tenantId displayName now => db.insertTenant tenantId displayName now
  | .disableTenant tenantId now => db.disableTenant tenantId now
  | .enableTenant tenantId => db.enableTenant tenantId
  | .insertPrincipal principal now => db.insertPrincipal principal now
  | .revokePrincipal principalId now => db.revokePrincipal principalId now
  | .touchPrincipal principalId now => some (db.touchPrincipal principalId now, true)
  | .addPrincipalSecret principalId secret expireOthersAt now =>
    db.addPrincipalSecret principalId secret expireOthersAt now
  | .revokePrincipalSecret principalId secretId now =>
    db.revokePrincipalSecret principalId secretId now
  | .insertUserGrant grant now => db.insertUserGrant grant now
  | .revokeUserGrant sub tenantId now => db.revokeUserGrant sub tenantId now
  | .insertProvider provider now => db.insertProvider ring provider now
  | .updateProvider provider now => db.updateProvider ring provider now
  | .deleteProvider id now => db.deleteProvider id now

namespace Db

/-! ## What the admin writes leave alone -/

/-- The tables of sessions, custody and audit are the same. -/
def SameCore (db db' : Db) : Prop :=
  db'.custody = db.custody ∧ db'.session = db.session ∧ db'.generation = db.generation ∧
    db'.audit = db.audit

variable {ring : KeyRing} {db db' : Db}

/-- What no admin write touches. -/
def untouched (db : Db) : List CustodyRecord × List SessionRecord × List GenerationRow ×
    List TxnRow × List StoredAuditRow × ℕ :=
  (db.custody, db.session, db.generation, db.txn, db.audit, db.auditSeq)

theorem insertSigningKey_untouched {key : NewSigningKey} {now activateAt : Timestamp}
    (h : db.insertSigningKey ring key now activateAt = some db') : db'.untouched = db.untouched := by
  obtain ⟨_, -, rfl⟩ := Option.map_eq_some_iff.1 h
  rfl

theorem insertSecret_untouched {principalId : String} {secret : NewSecret} {now : Timestamp}
    (h : db.insertSecret principalId secret now = some db') : db'.untouched = db.untouched := by
  unfold insertSecret at h
  split_ifs at h
  obtain ⟨_, -, rfl⟩ := Option.map_eq_some_iff.1 h
  rfl

theorem insertTenant_untouched (db : Db) (tenantId : String) (displayName : Option String)
    (now : Timestamp) : (db.insertTenant tenantId displayName now).1.untouched = db.untouched := by
  unfold insertTenant
  split <;> rfl

/-- **Admin writes leave sessions, custody and the audit record alone.** -/
theorem applyAdmin_untouched {write : AdminWrite} {applied : Bool}
    (h : db.applyAdmin ring write = some (db', applied)) : db'.untouched = db.untouched := by
  cases write with
  | insertApiKey keyId name keyHash createdBy now =>
    obtain ⟨db₁, hd, he⟩ := Option.map_eq_some_iff.1 h
    cases he
    unfold insertApiKey at hd
    split_ifs at hd
    obtain ⟨_, -, rfl⟩ := Option.map_eq_some_iff.1 hd
    rfl
  | insertSigningKey key now =>
    obtain ⟨db₁, hd, he⟩ := Option.map_eq_some_iff.1 h
    cases he
    exact insertSigningKey_untouched hd
  | rotateSigningKey key now activateAt retireAt =>
    obtain ⟨db₁, hd, he⟩ := Option.map_eq_some_iff.1 h
    cases he
    have hkeys := insertSigningKey_untouched hd
    exact hkeys
  | insertTenant tenantId displayName now =>
    obtain ⟨rfl, -⟩ := Prod.mk.inj (Option.some.inj h)
    exact insertTenant_untouched db tenantId displayName now
  | insertPrincipal p now =>
    have ht := insertTenant_untouched db p.tenantId none now
    unfold applyAdmin insertPrincipal at h
    dsimp only at h
    split_ifs at h
    · cases h
      exact ht
    · cases h
      exact ht
    · obtain ⟨db₁, hb, he⟩ := Option.map_eq_some_iff.1 h
      cases he
      obtain ⟨principal, -, hs⟩ := Option.bind_eq_some_iff.1 hb
      exact (insertSecret_untouched hs).trans ht
  | addPrincipalSecret principalId secret expireOthersAt now =>
    unfold applyAdmin addPrincipalSecret at h
    dsimp only at h
    split_ifs at h
    · obtain ⟨db₁, hd, he⟩ := Option.map_eq_some_iff.1 h
      cases he
      have hsecret := insertSecret_untouched hd
      cases expireOthersAt <;> exact hsecret
    · cases h
      rfl
  | insertUserGrant g now =>
    have ht := insertTenant_untouched db g.tenantId none now
    have h' := Option.some.inj h
    unfold insertUserGrant at h'
    dsimp only at h'
    split_ifs at h'
    all_goals cases h'; exact ht
  | insertProvider p now =>
    have h' := Option.some.inj h
    unfold insertProvider at h'
    dsimp only at h'
    split_ifs at h'
    all_goals cases h'; rfl
  | _ =>
    cases h
    rfl

theorem applyAdmin_sameCore {write : AdminWrite} {applied : Bool}
    (h : db.applyAdmin ring write = some (db', applied)) : db.SameCore db' := by
  have hu := applyAdmin_untouched h
  simp only [untouched, Prod.mk.injEq] at hu
  obtain ⟨hc, hs, hg, -, ha, -⟩ := hu
  exact ⟨hc, hs, hg, ha⟩

end Db

end SessionBroker
