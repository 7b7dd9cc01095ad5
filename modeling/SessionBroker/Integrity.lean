/-
  What the schema declares, as an invariant of the database.

  * `Db.Integrity`: the primary keys, the unique columns, the foreign keys, and
    the sequence of the audit table;
  * one lemma per statement, frame first: a statement that changes one table
    leaves every constraint of the others alone;
  * `Db.Integrity.apply`: every command of the writer keeps them all.
-/
import SessionBroker.Writer
import SessionBroker.Stored
import SessionBroker.Lib.Transaction

namespace SessionBroker

open Table

/-! ## Sessions and generations -/

namespace Tables

/-- The foreign keys of `session` and `generation`. -/
structure Linked (t : Tables) : Prop where
  sessionCustody : Refs (·.row.custodyId) CustodyRow.custodyId t.session t.custody
  generationSession : Refs GenerationRow.sid (fun s : SessionRecord => s.row.sid) t.generation t.session

theorem applyCommand_custody {t t' : Tables} {c : SessionCommand}
    (h : t.applyCommand c = some t') : t'.custody = t.custody := by
  cases c with
  | insertSession row =>
    simp only [applyCommand, insertSession] at h
    split_ifs at h
    obtain ⟨c, -, rfl⟩ := Option.map_eq_some_iff.1 h
    rfl
  | insertGeneration sid genNo hash createdAt activeUntil =>
    simp only [applyCommand, insertGeneration] at h
    split_ifs at h
    cases h
    rfl
  | updateSessionProgress => cases h; rfl
  | tombstoneSession => cases h; rfl
  | supersedeGeneration => cases h; rfl
  | deleteGeneration => cases h; rfl

/-- An in-place change of session rows that moves neither the sid nor the
    custody. -/
theorem Linked.map_session {t : Tables} (h : t.Linked) (f : SessionRecord → SessionRecord)
    (hs : ∀ r, (f r).row.sid = r.row.sid) (hc : ∀ r, (f r).row.custodyId = r.row.custodyId) :
    ({ t with session := t.session.map f } : Tables).Linked :=
  ⟨h.sessionCustody.map_child hc, h.generationSession.map_parent hs⟩

theorem Linked.applyCommand {t t' : Tables} {c : SessionCommand} (h : t.Linked)
    (ha : t.applyCommand c = some t') : t'.Linked := by
  cases c with
  | insertSession row =>
    simp only [Tables.applyCommand, insertSession] at ha
    split_ifs at ha
    obtain ⟨c, hc, rfl⟩ := Option.map_eq_some_iff.1 ha
    have hk : c.custodyId = row.custodyId := by simpa using List.find?_some hc
    exact ⟨h.sessionCustody.append_child ⟨c, List.mem_of_find?_eq_some hc, hk⟩,
      h.generationSession.append_parent _⟩
  | updateSessionProgress sid currentGen idleExp =>
    cases ha
    exact h.map_session _ (fun r => by split_ifs <;> rfl) fun r => by split_ifs <;> rfl
  | tombstoneSession sid now =>
    cases ha
    exact h.map_session _ (fun r => by split_ifs <;> rfl) fun r => by split_ifs <;> rfl
  | insertGeneration sid genNo hash createdAt activeUntil =>
    simp only [Tables.applyCommand, insertGeneration] at ha
    split_ifs at ha with hh hs
    cases ha
    obtain ⟨r, hr, hk⟩ := List.any_eq_true.1 hs
    exact ⟨h.sessionCustody, h.generationSession.append_child ⟨r, hr, of_decide_eq_true hk⟩⟩
  | supersedeGeneration hash supersededAt =>
    cases ha
    exact ⟨h.sessionCustody, h.generationSession.map_child fun g => by split_ifs <;> rfl⟩
  | deleteGeneration hash =>
    cases ha
    exact ⟨h.sessionCustody, fun g hg => h.generationSession g (List.mem_filter.1 hg).1⟩

end Tables

namespace Db

/-- The constraints of schema v6. -/
structure Integrity (db : Db) : Prop where
  custodyKey : UniqueOn (·.custodyId) db.custody
  keyed : db.tables.Keyed
  linked : db.tables.Linked
  txnKey : UniqueOn (·.txnId) db.txn
  apiKeyId : UniqueOn (·.keyId) db.apiKey
  apiKeyHash : UniqueOn (·.keyHash) db.apiKey
  tenantKey : UniqueOn (·.tenantId) db.tenant
  principalKey : UniqueOn (·.principalId) db.principal
  principalName : UniqueOn (fun p => (p.tenantId, p.name)) db.principal
  principalTenant : Refs PrincipalRow.tenantId TenantRow.tenantId db.principal db.tenant
  secretKey : UniqueOn (·.secretId) db.principalSecret
  secretHash : UniqueOn (·.secretHash) db.principalSecret
  secretPrincipal :
    Refs SecretRecord.principalId PrincipalRow.principalId db.principalSecret db.principal
  grantKey : UniqueOn (fun g => (g.sub, g.tenantId)) db.userGrant
  grantTenant : Refs UserGrantRow.tenantId TenantRow.tenantId db.userGrant db.tenant
  signingKeyKid : UniqueOn (·.kid) db.signingKey
  providerKey : UniqueOn (·.id) db.identityProvider
  auditSeq : (db.audit.map (·.seq)).Pairwise (· < ·)
  auditLast : ∀ r ∈ db.audit, r.seq ≤ db.auditSeq

theorem integrity_fresh (now : Timestamp) : (fresh now).Integrity where
  custodyKey := List.nodup_nil
  keyed := ⟨List.nodup_nil, List.nodup_nil⟩
  linked := ⟨fun _ h => absurd h List.not_mem_nil, fun _ h => absurd h List.not_mem_nil⟩
  txnKey := List.nodup_nil
  apiKeyId := List.nodup_nil
  apiKeyHash := List.nodup_nil
  tenantKey := List.nodup_singleton _
  principalKey := List.nodup_nil
  principalName := List.nodup_nil
  principalTenant := fun _ h => absurd h List.not_mem_nil
  secretKey := List.nodup_nil
  secretHash := List.nodup_nil
  secretPrincipal := fun _ h => absurd h List.not_mem_nil
  grantKey := List.nodup_nil
  grantTenant := fun _ h => absurd h List.not_mem_nil
  signingKeyKid := List.nodup_nil
  providerKey := List.nodup_nil
  auditSeq := List.Pairwise.nil
  auditLast := fun _ h => absurd h List.not_mem_nil

variable {ring : KeyRing} {db db' : Db}

theorem tables_setTables {t : Tables} (h : t.custody = db.tables.custody) :
    (db.setTables t).tables = t := by
  cases t
  simp only [tables, setTables] at h ⊢
  rw [h]

theorem Integrity.applySession {cmd : SessionCommand} (h : db.Integrity)
    (ha : db.applySession cmd = some db') : db'.Integrity := by
  obtain ⟨t, ht, rfl⟩ := Option.map_eq_some_iff.1 ha
  have hk := h.keyed.applyCommand ht
  have hl := h.linked.applyCommand ht
  rw [← tables_setTables (Tables.applyCommand_custody ht)] at hk hl
  exact { h with keyed := hk, linked := hl }

/-! ## Custody -/

/-- A custody table with the same ids, in which every referenced row is. -/
theorem Integrity.setCustody (h : db.Integrity) {custody : List CustodyRecord}
    (hu : UniqueOn (·.custodyId) custody)
    (hr : ∀ r ∈ db.session, ∃ c ∈ custody, c.custodyId = r.row.custodyId) :
    ({ db with custody } : Db).Integrity :=
  { h with
    custodyKey := hu
    keyed := ⟨h.keyed.session, h.keyed.generation⟩
    linked := ⟨fun r hs => by
      obtain ⟨c, hc, hk⟩ := hr r hs
      exact ⟨⟨c.custodyId, c.providerId⟩, List.mem_map.2 ⟨c, hc, rfl⟩, hk⟩,
      h.linked.generationSession⟩ }

theorem Integrity.sessionCustody (h : db.Integrity) :
    Refs (·.row.custodyId) CustodyRecord.custodyId db.session db.custody := by
  intro r hr
  obtain ⟨_, hm, hk⟩ := h.linked.sessionCustody r hr
  obtain ⟨c, hc, rfl⟩ := List.mem_map.1 hm
  exact ⟨c, hc, hk⟩

theorem Integrity.updateCustody (h : db.Integrity) {p : CustodyRecord → Bool}
    {f : CustodyRecord → CustodyRecord} (hf : ∀ c, (f c).custodyId = c.custodyId) :
    ({ db with custody := updateWhere p f db.custody } : Db).Integrity :=
  h.setCustody (h.custodyKey.updateWhere hf) (h.sessionCustody.update_parent hf)

theorem Integrity.applyCustody {write : CustodyWrite} (h : db.Integrity)
    (ha : db.applyCustody ring write = some db') : db'.Integrity := by
  cases write with
  | insert row =>
    obtain ⟨custody, hc, rfl⟩ := Option.map_eq_some_iff.1 ha
    refine h.setCustody (h.custodyKey.insertRow hc) ?_
    obtain ⟨-, rfl⟩ := insertRow_eq_some.1 hc
    exact h.sessionCustody.append_parent _
  | success => cases ha; exact h.updateCustody fun _ => rfl
  | failure => cases ha; exact h.updateCustody fun _ => rfl

/-! ## The reaper -/

/-- The sids `reap` removes. -/
def dead (db : Db) (deadBefore : Timestamp) : List Sid :=
  (db.session.filter (doomed deadBefore)).map (·.row.sid)

/-- Under the primary key, the sessions removed are the doomed ones. -/
theorem Integrity.mem_dead (h : db.Integrity) {deadBefore : Timestamp} {s : SessionRecord}
    (hs : s ∈ db.session) : s.row.sid ∈ db.dead deadBefore ↔ doomed deadBefore s = true := by
  constructor
  · intro hd
    obtain ⟨s', hs', hk⟩ := List.mem_map.1 hd
    obtain ⟨hs', hd⟩ := List.mem_filter.1 hs'
    have hu : UniqueOn (fun s : SessionRecord => s.row.sid) db.session := h.keyed.session
    rwa [← hu.eq_of_key hs' hs hk]
  · exact fun hd => List.mem_map.2 ⟨s, List.mem_filter.2 ⟨hs, hd⟩, rfl⟩

/-- The first `DELETE` of `reap`: the generations of the sessions that are to go. -/
def reapGenerations (db : Db) (deadBefore : Timestamp) : Db :=
  { db with generation := deleteWhere (fun g => g.sid ∈ db.dead deadBefore) db.generation }

/-- Its second: those sessions. -/
def reapSessions (db : Db) (deadBefore : Timestamp) : Db :=
  { db with session := deleteWhere (fun s => s.row.sid ∈ db.dead deadBefore) db.session }

/-- Its last: the custodies no session is left of. -/
def reapCustody (db : Db) : Db :=
  { db with custody :=
      deleteWhere (fun c => c.custodyId ∉ db.session.map (·.row.custodyId)) db.custody }

theorem reap_eq (db : Db) (deadBefore txnBefore : Timestamp) :
    (db.reap deadBefore txnBefore).1 =
      (((db.reapGenerations deadBefore).reapSessions deadBefore).deleteExpiredTxns
        txnBefore).reapCustody := rfl

theorem Integrity.reapGenerations (h : db.Integrity) (deadBefore : Timestamp) :
    (db.reapGenerations deadBefore).Integrity :=
  { h with
    keyed := by
      have hg : UniqueOn GenerationRow.tokenHash db.generation := h.keyed.generation
      exact ⟨h.keyed.session, hg.deleteWhere⟩
    linked := ⟨h.linked.sessionCustody, fun g hg =>
      h.linked.generationSession g (mem_deleteWhere.1 hg).1⟩ }

/-- The foreign key of `generation` lets the sessions go once no generation is
    left of them. -/
theorem Integrity.reapSessions (h : db.Integrity) {deadBefore : Timestamp}
    (hnone : ∀ g ∈ db.generation, g.sid ∉ db.dead deadBefore) :
    (db.reapSessions deadBefore).Integrity :=
  { h with
    keyed := by
      have hs : UniqueOn (fun s : SessionRecord => s.row.sid) db.session := h.keyed.session
      exact ⟨hs.deleteWhere, h.keyed.generation⟩
    linked := by
      refine ⟨fun s hs => h.linked.sessionCustody s (mem_deleteWhere.1 hs).1, fun g hg => ?_⟩
      obtain ⟨s, hs, hk⟩ := h.linked.generationSession g hg
      have hkeep : s.row.sid ∉ db.dead deadBefore := fun hd => hnone g hg (hk ▸ hd)
      exact ⟨s, mem_deleteWhere.2 ⟨hs, decide_eq_false hkeep⟩, hk⟩ }

theorem Integrity.deleteExpiredTxns (h : db.Integrity) (before : Timestamp) :
    (db.deleteExpiredTxns before).Integrity :=
  { h with txnKey := h.txnKey.deleteWhere }

theorem Integrity.reapCustody (h : db.Integrity) : db.reapCustody.Integrity := by
  refine h.setCustody h.custodyKey.deleteWhere fun s hs => ?_
  obtain ⟨c, hc, hk⟩ := h.sessionCustody s hs
  refine ⟨c, mem_deleteWhere.2 ⟨hc, decide_eq_false (not_not_intro ?_)⟩, hk⟩
  rw [hk]
  exact List.mem_map_of_mem hs

/-- The generations left are of no session that is to go. -/
theorem not_dead_of_mem_reapGenerations {deadBefore : Timestamp} {g : GenerationRow}
    (hg : g ∈ (db.reapGenerations deadBefore).generation) :
    g.sid ∉ (db.reapGenerations deadBefore).dead deadBefore :=
  of_decide_eq_false (mem_deleteWhere.1 hg).2

theorem Integrity.reap (h : db.Integrity) (deadBefore txnBefore : Timestamp) :
    (db.reap deadBefore txnBefore).1.Integrity := by
  rw [reap_eq]
  have hs := (h.reapGenerations deadBefore).reapSessions fun _ => not_dead_of_mem_reapGenerations
  exact (hs.deleteExpiredTxns txnBefore).reapCustody

/-! ## Admin writes -/

theorem Integrity.insertTenant (h : db.Integrity) (tenantId : String)
    (displayName : Option String) (now : Timestamp) :
    (db.insertTenant tenantId displayName now).1.Integrity := by
  unfold Db.insertTenant
  split
  · rename_i tenant ht
    obtain ⟨hn, rfl⟩ := insertRow_eq_some.1 ht
    exact { h with
      tenantKey := h.tenantKey.append hn
      principalTenant := h.principalTenant.append_parent _
      grantTenant := h.grantTenant.append_parent _ }
  · exact h

theorem Integrity.updateTenant (h : db.Integrity) {p : TenantRow → Bool} {f : TenantRow → TenantRow}
    (hf : ∀ t, (f t).tenantId = t.tenantId) :
    ({ db with tenant := updateWhere p f db.tenant } : Db).Integrity :=
  { h with
    tenantKey := h.tenantKey.updateWhere hf
    principalTenant := h.principalTenant.update_parent hf
    grantTenant := h.grantTenant.update_parent hf }

/-- After `ensure_tenant` the tenant is there. -/
theorem exists_tenant_ensureTenant (db : Db) (tenantId : String) (now : Timestamp) :
    ∃ t ∈ (db.ensureTenant tenantId now).1.tenant, t.tenantId = tenantId := by
  unfold ensureTenant Db.insertTenant
  dsimp only
  split
  · rename_i tenant ht
    obtain ⟨-, rfl⟩ := insertRow_eq_some.1 ht
    exact ⟨_, List.mem_append_right _ (List.mem_singleton_self _), rfl⟩
  · rename_i ht
    by_contra hno
    have hsome : (insertRow TenantRow.tenantId db.tenant ⟨tenantId, none, now, none⟩).isSome :=
      insertRow_isSome.2 fun t hm hk => hno ⟨t, hm, hk⟩
    rw [ht] at hsome
    exact absurd hsome Bool.false_ne_true

theorem Integrity.updatePrincipal (h : db.Integrity) {p : PrincipalRow → Bool}
    {f : PrincipalRow → PrincipalRow} (hi : ∀ r, (f r).principalId = r.principalId)
    (ht : ∀ r, (f r).tenantId = r.tenantId) (hn : ∀ r, (f r).name = r.name) :
    ({ db with principal := updateWhere p f db.principal } : Db).Integrity :=
  { h with
    principalKey := h.principalKey.updateWhere hi
    principalName := h.principalName.updateWhere fun r => by rw [ht, hn]
    principalTenant := h.principalTenant.update_child ht
    secretPrincipal := h.secretPrincipal.update_parent hi }

theorem Integrity.updateSecret (h : db.Integrity) {p : SecretRecord → Bool}
    {f : SecretRecord → SecretRecord} (hi : ∀ r, (f r).secretId = r.secretId)
    (hh : ∀ r, (f r).secretHash = r.secretHash) (hp : ∀ r, (f r).principalId = r.principalId) :
    ({ db with principalSecret := updateWhere p f db.principalSecret } : Db).Integrity :=
  { h with
    secretKey := h.secretKey.updateWhere hi
    secretHash := h.secretHash.updateWhere hh
    secretPrincipal := h.secretPrincipal.update_child hp }

theorem Integrity.insertSecret (h : db.Integrity) {principalId : String} {secret : NewSecret}
    {now : Timestamp} (ha : db.insertSecret principalId secret now = some db') : db'.Integrity := by
  unfold Db.insertSecret at ha
  split_ifs at ha with hh hp
  obtain ⟨secrets, hs, rfl⟩ := Option.map_eq_some_iff.1 ha
  obtain ⟨p, hp, hk⟩ := List.any_eq_true.1 hp
  obtain ⟨hn, rfl⟩ := insertRow_eq_some.1 hs
  refine { h with
    secretKey := h.secretKey.append hn
    secretHash := h.secretHash.append fun r hr hk => hh (List.any_eq_true.2 ⟨r, hr, by simpa using hk⟩)
    secretPrincipal := h.secretPrincipal.append_child ⟨p, hp, of_decide_eq_true hk⟩ }

theorem Integrity.insertPrincipal (h : db.Integrity) {p : NewPrincipal} {now : Timestamp}
    {r : Db × Bool} (ha : db.insertPrincipal p now = some r) : r.1.Integrity := by
  have he : (db.ensureTenant p.tenantId now).1.Integrity := h.insertTenant _ _ _
  obtain ⟨t, ht, hk⟩ := exists_tenant_ensureTenant db p.tenantId now
  unfold Db.insertPrincipal at ha
  dsimp only at ha
  split_ifs at ha with hd hkind hname
  · cases ha; exact he
  · cases ha; exact he
  · obtain ⟨db₂, hb, rfl⟩ := Option.map_eq_some_iff.1 ha
    obtain ⟨principal, hi, hs⟩ := Option.bind_eq_some_iff.1 hb
    obtain ⟨hn, rfl⟩ := insertRow_eq_some.1 hi
    refine Integrity.insertSecret ?_ hs
    exact { he with
      principalKey := he.principalKey.append hn
      principalName := he.principalName.append fun r hr hk => hname
        (List.any_eq_true.2 ⟨r, hr, by simpa using hk⟩)
      principalTenant := he.principalTenant.append_child ⟨t, ht, hk⟩
      secretPrincipal := he.secretPrincipal.append_parent _ }

theorem Integrity.insertUserGrant (h : db.Integrity) (g : NewUserGrant) (now : Timestamp) :
    (db.insertUserGrant g now).1.Integrity := by
  have he : (db.ensureTenant g.tenantId now).1.Integrity := h.insertTenant _ _ _
  unfold Db.insertUserGrant
  dsimp only
  split_ifs with hd hm
  · exact he
  · exact { he with
      grantKey := he.grantKey.updateWhere fun _ => rfl
      grantTenant := he.grantTenant.update_child fun _ => rfl }
  · exact { he with
      grantKey := he.grantKey.append fun r hr hk => hm
        (List.any_eq_true.2 ⟨r, hr, by simpa using hk⟩)
      grantTenant := he.grantTenant.append_child (exists_tenant_ensureTenant db g.tenantId now) }

theorem Integrity.updateProvider (h : db.Integrity) {p : ProviderRecord → Bool}
    {f : ProviderRecord → ProviderRecord} (hf : ∀ r, (f r).id = r.id) :
    ({ db with identityProvider := updateWhere p f db.identityProvider } : Db).Integrity :=
  { h with providerKey := h.providerKey.updateWhere hf }

theorem Integrity.insertProvider (h : db.Integrity) (p : NewProvider) (now : Timestamp) :
    (db.insertProvider ring p now).1.Integrity := by
  unfold Db.insertProvider
  dsimp only
  split_ifs with hp
  · exact h.updateProvider fun _ => rfl
  · exact { h with
      providerKey := h.providerKey.append fun r hr hk => hp
        (List.any_eq_true.2 ⟨r, hr, by simpa using hk⟩) }

theorem Integrity.insertSigningKey (h : db.Integrity) {key : NewSigningKey}
    {now activateAt : Timestamp} (ha : db.insertSigningKey ring key now activateAt = some db') :
    db'.Integrity := by
  obtain ⟨keys, hk, rfl⟩ := Option.map_eq_some_iff.1 ha
  exact { h with signingKeyKid := h.signingKeyKid.insertRow hk }

theorem Integrity.insertApiKey (h : db.Integrity) {keyId name : String} {keyHash : Bytes}
    {createdBy : Option String} {now : Timestamp}
    (ha : db.insertApiKey keyId name keyHash createdBy now = some db') : db'.Integrity := by
  unfold Db.insertApiKey at ha
  split_ifs at ha with hh
  obtain ⟨keys, hk, rfl⟩ := Option.map_eq_some_iff.1 ha
  obtain ⟨hn, rfl⟩ := insertRow_eq_some.1 hk
  exact { h with
    apiKeyId := h.apiKeyId.append hn
    apiKeyHash := h.apiKeyHash.append fun r hr hk => hh
      (List.any_eq_true.2 ⟨r, hr, by simpa using hk⟩) }

theorem Integrity.applyAdmin {write : AdminWrite} {r : Db × Bool} (h : db.Integrity)
    (ha : db.applyAdmin ring write = some r) : r.1.Integrity := by
  cases write with
  | insertApiKey =>
    obtain ⟨db', hd, rfl⟩ := Option.map_eq_some_iff.1 ha
    exact h.insertApiKey hd
  | revokeApiKey | touchApiKey =>
    cases ha
    exact { h with
      apiKeyId := h.apiKeyId.updateWhere fun _ => rfl
      apiKeyHash := h.apiKeyHash.updateWhere fun _ => rfl }
  | insertSigningKey =>
    obtain ⟨db', hd, rfl⟩ := Option.map_eq_some_iff.1 ha
    exact h.insertSigningKey hd
  | rotateSigningKey key now activateAt retireAt =>
    obtain ⟨db', hd, rfl⟩ := Option.map_eq_some_iff.1 ha
    refine Integrity.insertSigningKey ?_ hd
    refine { h with signingKeyKid := ?_ }
    exact UniqueOn.updateWhere (h.signingKeyKid.updateWhere fun _ => rfl) fun _ => rfl
  | removeRetiredSigningKey =>
    cases ha
    exact { h with signingKeyKid := h.signingKeyKid.updateWhere fun _ => rfl }
  | insertTenant => cases ha; exact h.insertTenant _ _ _
  | disableTenant | enableTenant => cases ha; exact h.updateTenant fun _ => rfl
  | insertPrincipal => exact h.insertPrincipal ha
  | revokePrincipal | touchPrincipal =>
    cases ha
    exact h.updatePrincipal (fun _ => rfl) (fun _ => rfl) fun _ => rfl
  | addPrincipalSecret principalId secret expireOthersAt now =>
    simp only [Db.applyAdmin, addPrincipalSecret] at ha
    split_ifs at ha
    · obtain ⟨db', hd, rfl⟩ := Option.map_eq_some_iff.1 ha
      refine Integrity.insertSecret ?_ hd
      cases expireOthersAt with
      | none => exact h
      | some at_ => exact h.updateSecret (fun _ => rfl) (fun _ => rfl) fun _ => rfl
    · cases ha; exact h
  | revokePrincipalSecret =>
    cases ha
    exact h.updateSecret (fun _ => rfl) (fun _ => rfl) fun _ => rfl
  | insertUserGrant => cases ha; exact h.insertUserGrant _ _
  | revokeUserGrant =>
    cases ha
    exact { h with
      grantKey := h.grantKey.updateWhere fun _ => rfl
      grantTenant := h.grantTenant.update_child fun _ => rfl }
  | insertProvider => cases ha; exact h.insertProvider _ _
  | updateProvider | deleteProvider => cases ha; exact h.updateProvider fun _ => rfl

/-! ## Commands -/

theorem Integrity.insertAudit (h : db.Integrity) (row : AuditRow) : (db.insertAudit row).Integrity :=
  { h with
    auditSeq := by
      simp only [Db.insertAudit, List.map_append, List.map_cons, List.map_nil,
        List.pairwise_append, List.pairwise_singleton, true_and, List.mem_singleton]
      refine ⟨h.auditSeq, ?_⟩
      rintro _ hs _ rfl
      obtain ⟨r, hr, rfl⟩ := List.mem_map.1 hs
      exact Nat.lt_succ_of_le (h.auditLast r hr)
    auditLast := by
      intro r hr
      simp only [Db.insertAudit, List.mem_append, List.mem_singleton] at hr ⊢
      rcases hr with hr | rfl
      · exact Nat.le_succ_of_le (h.auditLast r hr)
      · exact le_rfl }

theorem Integrity.applyAudited {write : AdminWrite} {audit : Option AuditRow} {r : Db × Bool}
    (h : db.Integrity) (ha : db.applyAudited ring write audit = some r) : r.1.Integrity := by
  obtain ⟨r, hr, rfl⟩ := Option.map_eq_some_iff.1 ha
  cases audit with
  | none => exact h.applyAdmin hr
  | some row => exact (h.applyAdmin hr).insertAudit _

theorem Integrity.reseal (h : db.Integrity) : (db.resealAll ring).1.Integrity := by
  have hc : (db.resealCustody ring).1.Integrity := by
    refine h.setCustody (h.custodyKey.map fun c => ?_) fun r hr => ?_
    · split <;> rfl
    · obtain ⟨c, hc, he⟩ := h.sessionCustody r hr
      refine ⟨_, List.mem_map.2 ⟨c, hc, rfl⟩, Eq.trans ?_ he⟩
      split <;> rfl
  have hs : ((db.resealCustody ring).1.resealSigningKeys ring).1.Integrity := by
    refine { hc with signingKeyKid := hc.signingKeyKid.map fun k => ?_ }
    split <;> rfl
  exact hs.updateProvider fun p => by split <;> rfl

/-- **Every command of the writer keeps the constraints of the schema.** -/
theorem Integrity.apply {cmd : Command} (h : db.Integrity) (ha : db.apply ring cmd = some db') :
    db'.Integrity := by
  cases cmd with
  | session cmd => exact h.applySession ha
  | insertTxn row =>
    obtain ⟨txn, ht, rfl⟩ := Option.map_eq_some_iff.1 ha
    exact { h with txnKey := h.txnKey.insertRow ht }
  | deleteExpiredTxns before => cases ha; exact h.deleteExpiredTxns before
  | custody write ack => exact h.applyCustody ha
  | admin write audit ack =>
    obtain ⟨r, hr, rfl⟩ := Option.map_eq_some_iff.1 ha
    exact h.applyAudited hr
  | audit row => cases ha; exact h.insertAudit row
  | pruneAudit before =>
    cases ha
    exact { h with
      auditSeq := h.auditSeq.sublist (List.filter_sublist.map _)
      auditLast := fun r hr => h.auditLast r (mem_deleteWhere.1 hr).1 }
  | reap deadBefore txnBefore => cases ha; exact h.reap deadBefore txnBefore
  | reseal => cases ha; exact h.reseal
  | ping | shutdown => cases ha; exact h

theorem Integrity.applyAll {cmds : List Command} (h : db.Integrity)
    (ha : Transaction.applyAll (Db.apply ring) db cmds = some db') : db'.Integrity :=
  Transaction.applyAll_invariant Db.Integrity (fun _ _ _ h ha => h.apply ha) h ha

end Db

end SessionBroker
