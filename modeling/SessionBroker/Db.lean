/-
  The whole database (`store/mod.rs`, `store/repo.rs`): every table of schema
  v6, and the statements on custody, login transactions, audit rows, dead rows
  and sealed columns.  The session and generation statements are those of
  `Tables`.

  * A statement returns `none` where SQLite refuses it;
  * a sealed column holds what was sealed, under which key id and in which
    context: opening it needs that key and that context, and the nonce, which
    only makes two sealings differ, is left out;
  * a column of JSON text holds the value the text stands for.
-/
import SessionBroker.Store
import SessionBroker.Lib.Table

namespace SessionBroker

/-! ## Sealed columns (`store/crypto.rs`) -/

abbrev Bytes := List UInt8

/-- A sealed value; `empty` is the `x''` of a deleted provider. -/
inductive Sealed where
  | empty
  | under (keyId : UInt8) (context : String) (plain : Bytes)
deriving DecidableEq, Repr

/-- The key ids this process can decrypt with, and the one it encrypts with. -/
structure KeyRing where
  active : UInt8
  keys : List UInt8
deriving DecidableEq, Repr

/-- `KeyRing::seal`. -/
def KeyRing.seal (ring : KeyRing) (plain : Bytes) (context : String) : Sealed :=
  .under ring.active context plain

/-- `KeyRing::open`. -/
def KeyRing.open (ring : KeyRing) (sealedValue : Sealed) (context : String) : Option Bytes :=
  match sealedValue with
  | .empty => none
  | .under keyId sealedFor plain =>
    if keyId ∈ ring.keys ∧ sealedFor = context then some plain else none

theorem open_seal {ring : KeyRing} (hring : ring.active ∈ ring.keys) (plain : Bytes)
    (context : String) : ring.open (ring.seal plain context) context = some plain := by
  simp [KeyRing.open, KeyRing.seal, hring]

/-- `key_id_of`. -/
def Sealed.keyIdOf : Sealed → Option UInt8
  | .empty => none
  | .under keyId _ _ => some keyId

/-- `context`: what binds a sealed token to its custody row and column. -/
def custodyContext (custodyId : CustodyId) (column : String) : String :=
  "custody:" ++ custodyId.id ++ ":" ++ column

/-- `signing_seed_context`. -/
def signingSeedContext (kid : String) : String := "signing:" ++ kid ++ ":seed"

/-- `provider_secret_context`. -/
def providerSecretContext (id : String) : String := "provider:" ++ id ++ ":client_secret"

/-! ## Rows -/

/-- `CustodyRow` of `store/repo.rs` with all its columns, the tokens in the
    clear. -/
structure FullCustodyRow where
  custodyId : CustodyId
  sub : String
  refreshTok : Bytes
  accessTok : Bytes
  accessExp : Timestamp
  scope : Option String
  status : CustodyStatus
  nextRefresh : Timestamp
  failCount : ℤ
  updatedAt : Timestamp
  providerId : String
deriving DecidableEq, Repr

/-- A row of the `custody` table. -/
structure CustodyRecord where
  custodyId : CustodyId
  sub : String
  refreshTok : Sealed
  accessTok : Sealed
  accessExp : Timestamp
  scope : Option String
  status : CustodyStatus
  nextRefresh : Timestamp
  failCount : ℤ
  updatedAt : Timestamp
  providerId : String
deriving DecidableEq, Repr

structure TxnRow where
  txnId : Bytes
  state : String
  nonce : String
  pkceVerifier : String
  returnTo : String
  createdAt : Timestamp
deriving DecidableEq, Repr

/-- A row of `api_key`. -/
structure ApiKeyRecord where
  keyId : String
  name : String
  keyHash : Bytes
  createdAt : Timestamp
  createdBy : Option String
  lastUsedAt : Option Timestamp
  revokedAt : Option Timestamp
deriving DecidableEq, Repr

structure TenantRow where
  tenantId : String
  displayName : Option String
  createdAt : Timestamp
  disabledAt : Option Timestamp
deriving DecidableEq, Repr

structure PrincipalRow where
  principalId : String
  tenantId : String
  name : String
  kind : String
  scopes : List String
  indexes : List String
  audience : String
  maxTtlSecs : ℤ
  createdAt : Timestamp
  createdBy : Option String
  lastUsedAt : Option Timestamp
  revokedAt : Option Timestamp
deriving DecidableEq, Repr

/-- A row of `principal_secret`. -/
structure SecretRecord where
  secretId : String
  principalId : String
  secretHash : Bytes
  createdAt : Timestamp
  expiresAt : Option Timestamp
  revokedAt : Option Timestamp
deriving DecidableEq, Repr

structure UserGrantRow where
  sub : String
  tenantId : String
  roles : List String
  indexes : List String
  createdAt : Timestamp
  createdBy : Option String
  revokedAt : Option Timestamp
deriving DecidableEq, Repr

/-- A row of `signing_key`. -/
structure SigningKeyRecord where
  kid : String
  publicKey : Bytes
  seedSealed : Sealed
  createdAt : Timestamp
  activateAt : Timestamp
  retireAt : Option Timestamp
  removedAt : Option Timestamp
deriving DecidableEq, Repr

/-- A row of `identity_provider`. -/
structure ProviderRecord where
  id : String
  preset : String
  displayName : String
  issuerUrl : String
  clientId : String
  clientSecretSealed : Sealed
  scopes : List String
  enabled : Bool
  createdAt : Timestamp
  updatedAt : Timestamp
  deletedAt : Option Timestamp
deriving DecidableEq, Repr

/-- The members of the JSON objects that audit rows carry. -/
inductive JsonValue where
  | num (n : ℤ)
  | bool (b : Bool)
  | str (s : String)
deriving DecidableEq, Repr

structure AuditRow where
  at_ : Timestamp
  action : String
  outcome : String
  actorKind : String
  actorId : Option String
  subject : Option String
  sid : Option String
  custodyId : Option String
  keyId : Option String
  reason : Option String
  clientIpPrefix : Option String
  detail : Option (List (String × JsonValue))
deriving DecidableEq, Repr

structure StoredAuditRow where
  seq : ℕ
  row : AuditRow
deriving DecidableEq, Repr

/-! ## Resealing one row -/

structure ResealReport where
  resealed : ℕ
  current : ℕ
  failed : ℕ
deriving DecidableEq, Repr

def ResealReport.add (r r' : ResealReport) : ResealReport :=
  ⟨r.resealed + r'.resealed, r.current + r'.current, r.failed + r'.failed⟩

def ResealReport.sum (rs : List ResealReport) : ResealReport := rs.foldl .add ⟨0, 0, 0⟩

/-- One row of a reseal pass: its sealed columns, with their contexts, become
    the same under the active key or stay as they are. -/
def resealColumns (ring : KeyRing) (columns : List (Sealed × String)) :
    List Sealed × ResealReport :=
  let kept := columns.map (·.1)
  if kept.all fun c => c.keyIdOf = some ring.active then (kept, ⟨0, 1, 0⟩)
  else match columns.mapM fun c => (ring.open c.1 c.2).map (ring.seal · c.2) with
    | some resealed => (resealed, ⟨1, 0, 0⟩)
    | none => (kept, ⟨0, 0, 1⟩)

def CustodyRecord.reseal (ring : KeyRing) (c : CustodyRecord) : List Sealed × ResealReport :=
  resealColumns ring [(c.refreshTok, custodyContext c.custodyId "refresh"),
    (c.accessTok, custodyContext c.custodyId "access")]

def SigningKeyRecord.reseal (ring : KeyRing) (k : SigningKeyRecord) : List Sealed × ResealReport :=
  resealColumns ring [(k.seedSealed, signingSeedContext k.kid)]

def ProviderRecord.reseal (ring : KeyRing) (p : ProviderRecord) : List Sealed × ResealReport :=
  resealColumns ring [(p.clientSecretSealed, providerSecretContext p.id)]

/-! ## The database -/

/-- The database.  `auditSeq` is the largest `seq` the `AUTOINCREMENT` of
    `audit` has handed out. -/
structure Db where
  custody : List CustodyRecord
  session : List SessionRecord
  generation : List GenerationRow
  txn : List TxnRow
  apiKey : List ApiKeyRecord
  audit : List StoredAuditRow
  auditSeq : ℕ
  tenant : List TenantRow
  principal : List PrincipalRow
  principalSecret : List SecretRecord
  userGrant : List UserGrantRow
  signingKey : List SigningKeyRecord
  identityProvider : List ProviderRecord
deriving DecidableEq, Repr

namespace Db

open Table

/-- What the migrations leave in a new file at `now`: the tenant `default`. -/
def fresh (now : Timestamp) : Db where
  custody := []
  session := []
  generation := []
  txn := []
  apiKey := []
  audit := []
  auditSeq := 0
  tenant := [⟨"default", some "default", now, none⟩]
  principal := []
  principalSecret := []
  userGrant := []
  signingKey := []
  identityProvider := []

/-! ## Sessions and generations -/

/-- The tables the session statements work on. -/
def tables (db : Db) : Tables where
  custody := db.custody.map fun c => ⟨c.custodyId, c.providerId⟩
  session := db.session
  generation := db.generation

def setTables (db : Db) (t : Tables) : Db :=
  { db with session := t.session, generation := t.generation }

/-- The session and generation arms of `apply_batch`. -/
def applySession (db : Db) (cmd : SessionCommand) : Option Db :=
  (db.tables.applyCommand cmd).map db.setTables

/-! ## Custody -/

/-- `insert_custody`. -/
def insertCustody (ring : KeyRing) (db : Db) (row : FullCustodyRow) : Option Db :=
  (insertRow (·.custodyId) db.custody {
    custodyId := row.custodyId
    sub := row.sub
    refreshTok := ring.seal row.refreshTok (custodyContext row.custodyId "refresh")
    accessTok := ring.seal row.accessTok (custodyContext row.custodyId "access")
    accessExp := row.accessExp
    scope := row.scope
    status := row.status
    nextRefresh := row.nextRefresh
    failCount := row.failCount
    updatedAt := row.updatedAt
    providerId := row.providerId }).map fun custody => { db with custody }

/-- `update_custody_success`. -/
def updateCustodySuccess (ring : KeyRing) (db : Db) (custodyId : CustodyId)
    (refreshTok accessTok : Bytes) (accessExp nextRefresh now : Timestamp) : Db :=
  { db with custody := updateWhere (fun c => c.custodyId = custodyId) (fun c => { c with
      refreshTok := ring.seal refreshTok (custodyContext custodyId "refresh")
      accessTok := ring.seal accessTok (custodyContext custodyId "access")
      accessExp
      nextRefresh
      status := .ok
      failCount := 0
      updatedAt := now }) db.custody }

/-- `update_custody_failure`. -/
def updateCustodyFailure (db : Db) (custodyId : CustodyId) (status : CustodyStatus)
    (failCount : ℤ) (nextRefresh now : Timestamp) : Db :=
  { db with custody := updateWhere (fun c => c.custodyId = custodyId) (fun c => { c with
      status
      failCount
      nextRefresh
      updatedAt := now }) db.custody }

/-! ## Login transactions -/

/-- `insert_txn`. -/
def insertTxn (db : Db) (row : TxnRow) : Option Db :=
  (insertRow (·.txnId) db.txn row).map fun txn => { db with txn }

/-- `delete_expired_txns`. -/
def deleteExpiredTxns (db : Db) (before : Timestamp) : Db :=
  { db with txn := deleteWhere (fun r => r.createdAt < before) db.txn }

/-! ## The reaper -/

structure ReapOutcome where
  generations : ℕ
  sessions : ℕ
  txns : ℕ
  custodies : ℕ
deriving DecidableEq, Repr

/-- The predicate of `DOOMED`. -/
def doomed (deadBefore : Timestamp) (s : SessionRecord) : Bool :=
  (s.row.status = .tombstoned ∧ s.tombstonedAt.any fun at_ => at_ < deadBefore) ∨
    s.row.absoluteExp < deadBefore

/-- `reap`: generations before their sessions, and custodies last, only those
    that no session row refers to. -/
def reap (db : Db) (deadBefore txnBefore : Timestamp) : Db × ReapOutcome :=
  let dead := (db.session.filter (doomed deadBefore)).map (·.row.sid)
  let generation := deleteWhere (fun g => g.sid ∈ dead) db.generation
  let session := deleteWhere (fun s => s.row.sid ∈ dead) db.session
  let txn := deleteWhere (fun r => r.createdAt < txnBefore) db.txn
  let custody := deleteWhere (fun c => c.custodyId ∉ session.map (·.row.custodyId)) db.custody
  ({ db with custody, session, generation, txn }, {
    generations := db.generation.length - generation.length
    sessions := db.session.length - session.length
    txns := db.txn.length - txn.length
    custodies := db.custody.length - custody.length })

/-! ## Audit -/

/-- `insert_audit`. -/
def insertAudit (db : Db) (row : AuditRow) : Db :=
  { db with audit := db.audit ++ [⟨db.auditSeq + 1, row⟩], auditSeq := db.auditSeq + 1 }

/-- `prune_audit`: the table, and how many rows went. -/
def pruneAudit (db : Db) (before : Timestamp) : Db × ℕ :=
  let audit := deleteWhere (fun r => r.row.at_ < before) db.audit
  ({ db with audit }, db.audit.length - audit.length)

/-! ## Resealing -/

/-- `reseal_custody_with`. -/
def resealCustody (ring : KeyRing) (db : Db) : Db × ResealReport :=
  ({ db with custody := db.custody.map fun c =>
      match (c.reseal ring).1 with
      | [refreshTok, accessTok] => { c with refreshTok, accessTok }
      | _ => c },
    .sum (db.custody.map fun c => (c.reseal ring).2))

/-- `reseal_signing_keys_with`: removed keys too. -/
def resealSigningKeys (ring : KeyRing) (db : Db) : Db × ResealReport :=
  ({ db with signingKey := db.signingKey.map fun k =>
      match (k.reseal ring).1 with
      | [seedSealed] => { k with seedSealed }
      | _ => k },
    .sum (db.signingKey.map fun k => (k.reseal ring).2))

/-- `reseal_providers_with`: a tombstone has nothing sealed. -/
def resealProviders (ring : KeyRing) (db : Db) : Db × ResealReport :=
  ({ db with identityProvider := updateWhere (fun p => p.deletedAt = none) (fun p =>
      match (p.reseal ring).1 with
      | [clientSecretSealed] => { p with clientSecretSealed }
      | _ => p) db.identityProvider },
    .sum ((db.identityProvider.filter fun p => p.deletedAt = none).map fun p => (p.reseal ring).2))

structure ResealAll where
  custody : ResealReport
  signingKeys : ResealReport
  identityProviders : ResealReport
deriving DecidableEq, Repr

/-- `reseal_all_with`. -/
def resealAll (ring : KeyRing) (db : Db) : Db × ResealAll :=
  let c := db.resealCustody ring
  let k := c.1.resealSigningKeys ring
  let p := k.1.resealProviders ring
  (p.1, ⟨c.2, k.2, p.2⟩)

end Db

end SessionBroker
