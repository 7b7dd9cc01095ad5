/-
  Tier A of the audit record: an admin write and its row, in one transaction.

  * `AdminWrite.Made` says what a write that applied has left in the store, and
    `Db.applyAdmin_false` that one that did not apply has left everything as it
    was: the tenant a create makes sure of is new only if nothing can be in its
    way;
  * `BatchOutcome.answer` is what the caller reads from its channel;
  * `tier_a_atomic` puts the three answers beside the store the batch left.
-/
import SessionBroker.Integrity
import SessionBroker.Batches

namespace SessionBroker

open Table Transaction

/-- A database that satisfies the schema. -/
abbrev Store := {db : Db // db.Integrity}

/-! ## What a write does -/

/-- The creates: what stands in their way is something already there. -/
def AdminWrite.isCreate : AdminWrite → Bool
  | insertApiKey .. | insertSigningKey .. | insertTenant .. | insertPrincipal .. |
    insertUserGrant .. | insertProvider .. => true
  | _ => false

/-- What a write that applied has left in the database. -/
def AdminWrite.Made (ring : KeyRing) (db : Db) : AdminWrite → Prop
  | insertApiKey keyId name keyHash createdBy now =>
    ⟨keyId, name, keyHash, now, createdBy, none, none⟩ ∈ db.apiKey
  | revokeApiKey keyId now => ∃ k ∈ db.apiKey, k.keyId = keyId ∧ k.revokedAt = some now
  | touchApiKey keyId now => ∀ k ∈ db.apiKey, k.keyId = keyId → k.lastUsedAt = some now
  | insertSigningKey key now =>
    ⟨key.kid, key.publicKey, ring.seal key.seed (signingSeedContext key.kid), now, now, none,
      none⟩ ∈ db.signingKey
  | rotateSigningKey key now activateAt retireAt =>
    ⟨key.kid, key.publicKey, ring.seal key.seed (signingSeedContext key.kid), now, activateAt,
      none, none⟩ ∈ db.signingKey ∧
    ∀ k ∈ db.signingKey, k.kid ≠ key.kid → k.removedAt = none →
      ∃ r, k.retireAt = some r ∧ r ≤ retireAt ∧ (activateAt < k.activateAt → r ≤ now)
  | removeRetiredSigningKey kid now => ∃ k ∈ db.signingKey, k.kid = kid ∧ k.removedAt = some now
  | insertTenant tenantId displayName now => ⟨tenantId, displayName, now, none⟩ ∈ db.tenant
  | disableTenant tenantId now => ∃ t ∈ db.tenant, t.tenantId = tenantId ∧ t.disabledAt = some now
  | enableTenant tenantId => ∃ t ∈ db.tenant, t.tenantId = tenantId ∧ t.disabledAt = none
  | insertPrincipal p now => db.tenantIsDisabled p.tenantId = false ∧
      ⟨p.principalId, p.tenantId, p.name, p.kind, p.scopes, p.indexes, p.audience,
        asI64 p.maxTtlSecs, now, p.createdBy, none, none⟩ ∈ db.principal ∧
      ⟨p.secret.secretId, p.principalId, p.secret.hash, now, p.secret.expiresAt, none⟩ ∈
        db.principalSecret
  | revokePrincipal principalId now =>
    ∃ p ∈ db.principal, p.principalId = principalId ∧ p.revokedAt = some now
  | touchPrincipal principalId now =>
    ∀ p ∈ db.principal, p.principalId = principalId → p.lastUsedAt = some now
  | addPrincipalSecret principalId secret expireOthersAt now =>
    ⟨secret.secretId, principalId, secret.hash, now, secret.expiresAt, none⟩ ∈ db.principalSecret ∧
    ∀ at_ ∈ expireOthersAt, ∀ s ∈ db.principalSecret, s.principalId = principalId →
      s.secretId ≠ secret.secretId → s.revokedAt = none → ∃ e, s.expiresAt = some e ∧ e ≤ at_
  | revokePrincipalSecret principalId secretId now => ∃ s ∈ db.principalSecret,
      s.secretId = secretId ∧ s.principalId = principalId ∧ s.revokedAt = some now
  | insertUserGrant g now => db.tenantIsDisabled g.tenantId = false ∧
      ⟨g.sub, g.tenantId, g.roles, g.indexes, now, g.createdBy, none⟩ ∈ db.userGrant
  | revokeUserGrant sub tenantId now =>
    ∃ g ∈ db.userGrant, g.sub = sub ∧ g.tenantId = tenantId ∧ g.revokedAt = some now
  | insertProvider p now => ∃ r ∈ db.identityProvider, r.id = p.id ∧ r.preset = p.preset ∧
      r.displayName = p.displayName ∧ r.issuerUrl = p.issuerUrl ∧ r.clientId = p.clientId ∧
      r.clientSecretSealed = ring.seal p.clientSecret (providerSecretContext p.id) ∧
      r.scopes = p.scopes ∧ r.enabled = p.enabled ∧ r.createdAt = now ∧ r.deletedAt = none
  | updateProvider p now => ∃ r ∈ db.identityProvider, r.id = p.id ∧ r.preset = p.preset ∧
      r.displayName = p.displayName ∧ r.issuerUrl = p.issuerUrl ∧ r.clientId = p.clientId ∧
      (∀ secret ∈ p.clientSecret,
        r.clientSecretSealed = ring.seal secret (providerSecretContext p.id)) ∧
      r.scopes = p.scopes ∧ r.enabled = p.enabled ∧ r.updatedAt = now ∧ r.deletedAt = none
  | deleteProvider id now => ∃ r ∈ db.identityProvider, r.id = id ∧ r.deletedAt = some now ∧
      r.enabled = false ∧ r.clientSecretSealed = .empty

namespace Db

variable {ring : KeyRing} {db db' : Db}

theorem insertSigningKey_made {key : NewSigningKey} {now activateAt : Timestamp}
    (h : db.insertSigningKey ring key now activateAt = some db') :
    db' = { db with signingKey := db.signingKey ++
      [⟨key.kid, key.publicKey, ring.seal key.seed (signingSeedContext key.kid), now, activateAt,
        none, none⟩] } := by
  obtain ⟨keys, hk, rfl⟩ := Option.map_eq_some_iff.1 h
  obtain ⟨-, rfl⟩ := insertRow_eq_some.1 hk
  rfl

theorem insertSecret_made {principalId : String} {secret : NewSecret} {now : Timestamp}
    (h : db.insertSecret principalId secret now = some db') :
    db' = { db with principalSecret := db.principalSecret ++
      [⟨secret.secretId, principalId, secret.hash, now, secret.expiresAt, none⟩] } := by
  unfold insertSecret at h
  split_ifs at h
  obtain ⟨secrets, hs, rfl⟩ := Option.map_eq_some_iff.1 h
  obtain ⟨-, rfl⟩ := insertRow_eq_some.1 hs
  rfl

theorem ensureTenant_enabled {tenantId : String} {now : Timestamp}
    (h : ¬ (!(db.ensureTenant tenantId now).2) = true) :
    (db.ensureTenant tenantId now).1.tenantIsDisabled tenantId = false := by
  simpa [ensureTenant] using h

theorem insertPrincipal_made {p : NewPrincipal} {now : Timestamp}
    (h : db.insertPrincipal p now = some (db', true)) : (AdminWrite.insertPrincipal p now).Made ring db' := by
  unfold insertPrincipal at h
  dsimp only at h
  split_ifs at h with hd hk hn
  · cases h
  · cases h
  · obtain ⟨db₂, hb, he⟩ := Option.map_eq_some_iff.1 h
    cases he
    obtain ⟨principal, hi, hs⟩ := Option.bind_eq_some_iff.1 hb
    obtain ⟨-, rfl⟩ := insertRow_eq_some.1 hi
    rw [insertSecret_made hs]
    exact ⟨ensureTenant_enabled hd, by simp, by simp⟩

theorem insertUserGrant_made {g : NewUserGrant} {now : Timestamp}
    (h : db.insertUserGrant g now = (db', true)) : (AdminWrite.insertUserGrant g now).Made ring db' := by
  unfold insertUserGrant at h
  dsimp only at h
  split_ifs at h with hd hm
  · cases h
  · obtain ⟨rfl, hany⟩ := Prod.mk.inj h
    refine ⟨ensureTenant_enabled hd, ?_⟩
    obtain ⟨r, hr, hp⟩ := List.any_eq_true.1 hany
    refine mem_updateWhere.2 ⟨r, hr, ?_⟩
    simp only [Bool.and_eq_true, decide_eq_true_eq] at hp
    simp [hp]
  · cases h
    exact ⟨ensureTenant_enabled hd, by simp⟩

/-- The `UPDATE` of `add_principal_secret` on one secret. -/
theorem expireOthers_dated {principalId : String} {at_ : Timestamp} {s : SecretRecord}
    (hs : s ∈ (db.expireOthers principalId at_).principalSecret) (hp : s.principalId = principalId)
    (hr : s.revokedAt = none) : ∃ e, s.expiresAt = some e ∧ e ≤ at_ := by
  obtain ⟨s₀, -, rfl⟩ := mem_updateWhere.1 hs
  by_cases h : (decide (s₀.principalId = principalId ∧ s₀.revokedAt = none) &&
      s₀.expiresAt.all fun e => decide (at_ < e)) = true
  · rw [if_pos h]
    exact ⟨at_, rfl, le_rfl⟩
  · rw [if_neg h] at hp hr ⊢
    cases he : s₀.expiresAt with
    | none => simp [hp, hr, he] at h
    | some e =>
      simp only [hp, hr, he, and_self, decide_true, Bool.true_and, Option.all_some,
        decide_eq_true_eq, not_lt] at h
      exact ⟨e, rfl, h⟩

/-- **A write that applied** has made its change. -/
theorem applyAdmin_made {write : AdminWrite} (h : db.applyAdmin ring write = some (db', true)) :
    write.Made ring db' := by
  cases write with
  | insertApiKey keyId name keyHash createdBy now =>
    obtain ⟨db₁, hd, he⟩ := Option.map_eq_some_iff.1 h
    cases he
    unfold insertApiKey at hd
    split_ifs at hd
    obtain ⟨keys, hk, rfl⟩ := Option.map_eq_some_iff.1 hd
    obtain ⟨-, rfl⟩ := insertRow_eq_some.1 hk
    simp [AdminWrite.Made]
  | insertSigningKey key now =>
    obtain ⟨db₁, hd, he⟩ := Option.map_eq_some_iff.1 h
    cases he
    rw [insertSigningKey_made hd]
    simp [AdminWrite.Made]
  | rotateSigningKey key now activateAt retireAt =>
    obtain ⟨db₁, hd, he⟩ := Option.map_eq_some_iff.1 h
    cases he
    rw [insertSigningKey_made hd]
    refine ⟨by simp, fun k hk hne hr => ?_⟩
    rcases List.mem_append.1 hk with hk | hk
    · exact retireBefore_dated hk hr
    · rw [List.mem_singleton.1 hk] at hne
      exact absurd rfl hne
  | insertTenant tenantId displayName now =>
    have h' := Option.some.inj h
    unfold insertTenant at h'
    split at h'
    · rename_i tenant ht
      cases h'
      obtain ⟨-, rfl⟩ := insertRow_eq_some.1 ht
      simp [AdminWrite.Made]
    · cases h'
  | insertPrincipal p now => exact insertPrincipal_made h
  | insertUserGrant g now => exact insertUserGrant_made (Option.some.inj h)
  | addPrincipalSecret principalId secret expireOthersAt now =>
    simp only [applyAdmin, addPrincipalSecret] at h
    split_ifs at h
    · obtain ⟨db₁, hd, he⟩ := Option.map_eq_some_iff.1 h
      cases he
      rw [insertSecret_made hd]
      refine ⟨by simp, fun at_ hat s hs hp hne hr => ?_⟩
      cases hat
      rcases List.mem_append.1 hs with hs | hs
      · exact expireOthers_dated hs hp hr
      · rw [List.mem_singleton.1 hs] at hne
        exact absurd rfl hne
    · cases h
  | touchApiKey keyId now =>
    cases h
    intro k hk hid
    obtain ⟨k₀, -, rfl⟩ := mem_updateWhere.1 hk
    by_cases h : k₀.keyId = keyId
    · simp [h]
    · simp [h] at hid
  | touchPrincipal principalId now =>
    cases h
    intro p hp hid
    obtain ⟨p₀, -, rfl⟩ := mem_updateWhere.1 hp
    by_cases h : p₀.principalId = principalId
    · simp [h]
    · simp [h] at hid
  | insertProvider p now =>
    have h' := Option.some.inj h
    unfold insertProvider at h'
    dsimp only at h'
    split_ifs at h'
    · obtain ⟨rfl, hany⟩ := Prod.mk.inj h'
      obtain ⟨r, -, hp, hr⟩ := exists_updated hany
      exact ⟨_, hr, by simp_all⟩
    · cases h'
      exact ⟨_, List.mem_append_right _ (List.mem_singleton_self _), by simp⟩
  | updateProvider p now =>
    obtain ⟨rfl, hany⟩ := Prod.mk.inj (Option.some.inj h)
    obtain ⟨r, -, hp, hr⟩ := exists_updated hany
    refine ⟨_, hr, ?_⟩
    simp_all
  | _ =>
    obtain ⟨rfl, hany⟩ := Prod.mk.inj (Option.some.inj h)
    obtain ⟨r, -, hp, hr⟩ := exists_updated hany
    exact ⟨_, hr, by simp_all⟩

/-- A create that finds its tenant missing finds nothing else in it. -/
theorem Integrity.ensureTenant (h : db.Integrity) (tenantId : String) (now : Timestamp) :
    (db.ensureTenant tenantId now).1 = db ∨
      (db.ensureTenant tenantId now).2 = true ∧
        (db.ensureTenant tenantId now).1.principal = db.principal ∧
        (db.ensureTenant tenantId now).1.userGrant = db.userGrant ∧
        (∀ p ∈ db.principal, p.tenantId ≠ tenantId) ∧ ∀ g ∈ db.userGrant, g.tenantId ≠ tenantId := by
  unfold Db.ensureTenant Db.insertTenant
  dsimp only
  split
  · rename_i tenant ht
    obtain ⟨hn, rfl⟩ := insertRow_eq_some.1 ht
    refine Or.inr ⟨?_, rfl, rfl, fun p hp hid => ?_, fun g hg hid => ?_⟩
    · have hnone : db.tenant.find? (fun t => t.tenantId = tenantId) = none := by
        rw [List.find?_eq_none]
        exact fun t ht => by simpa using hn t ht
      simp [tenantIsDisabled, List.find?_append, hnone]
    · obtain ⟨t, ht, hk⟩ := h.principalTenant p hp
      exact hn t ht (hk.trans hid)
    · obtain ⟨t, ht, hk⟩ := h.grantTenant g hg
      exact hn t ht (hk.trans hid)
  · exact Or.inl rfl

theorem Integrity.insertPrincipal_false (h : db.Integrity) {p : NewPrincipal} {now : Timestamp}
    (ha : db.insertPrincipal p now = some (db', false)) : db' = db := by
  unfold Db.insertPrincipal at ha
  dsimp only at ha
  rcases h.ensureTenant p.tenantId now with he | ⟨he, hp, -, hnone, -⟩
  · rw [he] at ha
    split_ifs at ha
    · cases ha; rfl
    · cases ha; rfl
    · obtain ⟨_, -, he⟩ := Option.map_eq_some_iff.1 ha
      cases he
  · -- the tenant is new, so no principal of it can have the name
    have hno : (db.principal.any fun q => decide (q.tenantId = p.tenantId ∧ q.name = p.name)) = false := by
      rw [List.any_eq_false]
      intro q hq
      simp [hnone q hq]
    rw [he, hp, hno] at ha
    simp only [Bool.not_true, Bool.false_eq_true, if_false] at ha
    split_ifs at ha
    obtain ⟨_, -, he⟩ := Option.map_eq_some_iff.1 ha
    cases he

theorem Integrity.insertUserGrant_false (h : db.Integrity) {g : NewUserGrant} {now : Timestamp}
    (ha : db.insertUserGrant g now = (db', false)) : db' = db := by
  unfold Db.insertUserGrant at ha
  dsimp only at ha
  rcases h.ensureTenant g.tenantId now with he | ⟨he, -, hg, -, hnone⟩
  · rw [he] at ha
    split_ifs at ha
    · cases ha; rfl
    · obtain ⟨rfl, hany⟩ := Prod.mk.inj ha
      rw [updateWhere_of_none hany]
    · cases ha
  · have hno : (db.userGrant.any fun r => decide (r.sub = g.sub ∧ r.tenantId = g.tenantId)) = false := by
      rw [List.any_eq_false]
      intro r hr
      simp [hnone r hr]
    rw [he, hg, hno] at ha
    simp at ha

/-- **A write that did not apply** has changed nothing. -/
theorem Integrity.applyAdmin_false {write : AdminWrite} (h : db.Integrity)
    (ha : db.applyAdmin ring write = some (db', false)) :
    db' = db ∧ write.unappliedReason = if write.isCreate then "conflict" else "not_found" := by
  cases write with
  | insertApiKey | insertSigningKey | rotateSigningKey =>
    obtain ⟨_, -, he⟩ := Option.map_eq_some_iff.1 ha
    cases he
  | touchApiKey | touchPrincipal => cases ha
  | insertPrincipal p now => exact ⟨h.insertPrincipal_false ha, rfl⟩
  | insertUserGrant g now => exact ⟨h.insertUserGrant_false (Option.some.inj ha), rfl⟩
  | insertTenant tenantId displayName now =>
    have ha' := Option.some.inj ha
    unfold Db.insertTenant at ha'
    split at ha'
    · cases ha'
    · cases ha'
      exact ⟨rfl, rfl⟩
  | addPrincipalSecret principalId secret expireOthersAt now =>
    simp only [Db.applyAdmin, addPrincipalSecret] at ha
    split_ifs at ha
    · obtain ⟨_, -, he⟩ := Option.map_eq_some_iff.1 ha
      cases he
    · cases ha
      exact ⟨rfl, rfl⟩
  | insertProvider p now =>
    have ha' := Option.some.inj ha
    unfold Db.insertProvider at ha'
    dsimp only at ha'
    split_ifs at ha'
    · obtain ⟨rfl, hany⟩ := Prod.mk.inj ha'
      rw [updateWhere_of_none hany]
      exact ⟨rfl, rfl⟩
    · cases ha'
  | _ =>
    obtain ⟨rfl, hany⟩ := Prod.mk.inj (Option.some.inj ha)
    refine ⟨?_, rfl⟩
    rw [updateWhere_of_none hany]

end Db

/-! ## What the caller hears -/

/-- The channel a command is acknowledged on. -/
def Command.ack : Command → Option ℕ
  | custody _ ack | admin _ _ ack => some ack
  | _ => none

/-- What an admin caller reads from its channel: `Ok(true)`, `Ok(false)`, or an
    error, which is also what a dropped channel reads as. -/
def BatchOutcome.answer (o : BatchOutcome) (ack : ℕ) : Option Bool :=
  match o.replies.find? fun p => p.1 = ack with
  | some (_, .admin applied) => applied
  | _ => none

section
variable {ring : KeyRing} {cmds : List (Command × Bool)}

/-- The notes for one channel. -/
def BatchState.notesFor (s : BatchState) (ack : ℕ) : List ℕ × List (ℕ × Bool) :=
  (s.acks.filter (· = ack), s.adminAcks.filter (·.1 = ack))

theorem BatchState.notesFor_note {s : BatchState} {cmd : Command} {ack : ℕ}
    (h : cmd.ack ≠ some ack) : (s.note ring cmd).notesFor ack = s.notesFor ack := by
  cases cmd with
  | custody write a =>
    have ha : a ≠ ack := fun ha => h (congrArg some ha)
    simp [note, notesFor, ha]
  | admin write audit a =>
    have ha : a ≠ ack := fun ha => h (congrArg some ha)
    cases hw : s.db.applyAudited ring write audit <;> simp [note, notesFor, ha, hw]
  | _ => rfl

variable (ring) in
theorem batchLoop_notesFor (s : BatchState) {ack : ℕ} (h : ∀ cmd ∈ cmds, cmd.1.ack ≠ some ack) :
    (batchLoop ring s cmds).1.notesFor ack = s.notesFor ack := by
  induction cmds generalizing s with
  | nil => rfl
  | cons cmd cmds ih =>
    rw [batchLoop]
    cases hs : s.step ring cmd with
    | none => rfl
    | some s' =>
      obtain ⟨db', -, rfl⟩ := BatchState.step_eq_some.1 hs
      dsimp only
      rw [ih _ fun cmd' hc => h cmd' (List.mem_cons_of_mem _ hc)]
      exact BatchState.notesFor_note (s := s) (h cmd (List.mem_cons_self ..))

/-- The loop goes through the commands that apply. -/
theorem batchLoop_append (s : BatchState) {db : Db}
    (h : applyAll (Db.attempt ring) s.db cmds = some db) (rest : List (Command × Bool)) :
    (batchLoop ring s cmds).1.db = db ∧
      batchLoop ring s (cmds ++ rest) = batchLoop ring (batchLoop ring s cmds).1 rest := by
  induction cmds generalizing s with
  | nil => exact ⟨Option.some.inj h, rfl⟩
  | cons cmd cmds ih =>
    rw [applyAll_cons, Option.bind_eq_some_iff] at h
    obtain ⟨db', ha, h⟩ := h
    rw [List.cons_append, batchLoop, batchLoop,
      BatchState.step_eq_some.2 ⟨db', ha, rfl⟩]
    exact ih _ h

/-- Nobody is told of success when the transaction is rolled back. -/
theorem answer_of_rollback {o : BatchOutcome} (h : o.committed = none) (ack : ℕ) :
    o.answer ack = none := by
  rw [BatchOutcome.answer, BatchOutcome.replies, h]
  split
  · rename_i applied hf
    rcases List.mem_append.1 (List.mem_of_find?_eq_some hf) with hm | hm
    · obtain ⟨_, -, he⟩ := List.mem_map.1 hm
      cases he
    · obtain ⟨p, -, he⟩ := List.mem_map.1 hm
      cases he
      rfl
  · rfl

theorem answer_of_commit {o : BatchOutcome} {db : Db} {ack : ℕ} {applied : Bool}
    (h : o.committed = some db) (ha : o.acks.filter (· = ack) = [])
    (hn : o.adminAcks.filter (·.1 = ack) = [(ack, applied)]) : o.answer ack = some applied := by
  have hfind : o.replies.find? (fun p => p.1 = ack) = some (ack, .admin (some applied)) := by
    rw [← List.head?_filter, BatchOutcome.replies, List.filter_append, List.filter_map,
      List.filter_map, h]
    simp only [Function.comp_def, ha, hn]
    rfl
  rw [BatchOutcome.answer, hfind]

end

/-- What the thread reads of the loop where `BEGIN` went through. -/
theorem applyBatch_notes (ring : KeyRing) (db : Db) (batch : Batch)
    (h : batch.beginFails = false) :
    (applyBatch ring db batch).acks = (batchLoop ring ⟨db, [], [], false⟩ batch.commands).1.acks ∧
    (applyBatch ring db batch).adminAcks =
      (batchLoop ring ⟨db, [], [], false⟩ batch.commands).1.adminAcks := by
  simp [applyBatch, h]

theorem Db.Integrity.attempt {ring : KeyRing} {db db' : Db} {cmd : Command × Bool}
    (h : db.Integrity) (ha : db.attempt ring cmd = some db') : db'.Integrity := by
  unfold Db.attempt at ha
  split_ifs at ha
  exact h.apply ha

/-- What `apply_batch` notes for a channel that one admin command has to
    itself, where every command applies. -/
theorem batchLoop_noted {ring : KeyRing} {s : BatchState} {found : Db}
    {ahead behind : List (Command × Bool)} {write : AdminWrite} {audit : Option AuditRow} {ack : ℕ}
    {fault : Bool} {made : Db} {applied : Bool}
    (hack : ∀ cmd ∈ ahead ++ behind, cmd.1.ack ≠ some ack)
    (hahead : applyAll (Db.attempt ring) s.db ahead = some found)
    (hmade : found.applyAudited ring write audit = some (made, applied))
    (hcmd : found.attempt ring (.admin write audit ack, fault) = some made) :
    (batchLoop ring s (ahead ++ (.admin write audit ack, fault) :: behind)).1.notesFor ack =
      ((s.notesFor ack).1, (s.notesFor ack).2 ++ [(ack, applied)]) := by
  obtain ⟨hdb, hloop⟩ := batchLoop_append s hahead ((.admin write audit ack, fault) :: behind)
  have hskip := batchLoop_notesFor ring s fun cmd hc => hack cmd (List.mem_append_left behind hc)
  rw [hloop, batchLoop, BatchState.step_eq_some.2 ⟨made, by rw [hdb]; exact hcmd, rfl⟩]
  dsimp only
  rw [batchLoop_notesFor ring _ fun cmd hc => hack cmd (List.mem_append_right ahead hc)]
  rw [← hskip]
  simp [BatchState.note, BatchState.notesFor, hdb, hmade]

/-- **Tier A is atomic.**  A caller whose write carries an audit row, on a
    channel of its own, hears
    * `Ok(true)`: the batch committed, the write made its whole change to the
      store it found, and one row with the success outcome followed it;
    * `Ok(false)`: the batch committed, the write left the store it found as it
      was, and one row followed with outcome `failure` and the reason;
    * an error: the batch was rolled back, with the change and the row. -/
theorem tier_a_atomic (ring : KeyRing) (store : Store) (beginFails commitFails : Bool)
    (ahead behind : List (Command × Bool)) (write : AdminWrite) (event : AuditRow) (ack : ℕ)
    (fault : Bool) (hack : ∀ cmd ∈ ahead ++ behind, cmd.1.ack ≠ some ack) :
    let row : AuditRow := { event with outcome := "success" }
    let o := applyBatch ring store.1
      ⟨ahead ++ (.admin write (some row) ack, fault) :: behind, beginFails, commitFails⟩
    let attempts := applyAll (Db.attempt ring)
    (o.answer ack = some true → ∃ found made final, o.committed = some final ∧
      attempts store.1 ahead = some found ∧
      found.applyAdmin ring write = some (made, true) ∧ write.Made ring made ∧
      attempts (made.insertAudit row) behind = some final) ∧
    (o.answer ack = some false → ∃ found final, o.committed = some final ∧
      attempts store.1 ahead = some found ∧
      attempts (found.insertAudit { row with
        outcome := "failure"
        reason := some (if write.isCreate then "conflict" else "not_found") }) behind =
          some final) ∧
    (o.answer ack = none → o.committed = none) := by
  intro row o attempts
  cases hc : o.committed with
  | none => simp [answer_of_rollback hc]
  | some final =>
    have hcommit : o.committed = _ := applyBatch_committed
    rw [hc] at hcommit
    split_ifs at hcommit with hf
    simp only [Bool.or_eq_true, not_or, Bool.not_eq_true] at hf
    obtain ⟨found, hfound, hrest⟩ := applyAll_append_eq_some.1 hcommit.symm
    rw [applyAll_cons, Option.bind_eq_some_iff] at hrest
    obtain ⟨next, hnext, hfinal⟩ := hrest
    -- our own arm
    have haudited : ∃ made applied, found.applyAdmin ring write = some (made, applied) ∧
        next = made.insertAudit (row.withOutcome write applied) := by
      rw [Db.attempt] at hnext
      split_ifs at hnext
      obtain ⟨r, hr, rfl⟩ := Option.map_eq_some_iff.1 hnext
      obtain ⟨⟨made, applied⟩, hm, rfl⟩ := Option.map_eq_some_iff.1 hr
      exact ⟨made, applied, hm, rfl⟩
    obtain ⟨made, applied, hmade, rfl⟩ := haudited
    have hanswer : o.answer ack = some applied := by
      have haudit : found.applyAudited ring write (some row) =
          some (made.insertAudit (row.withOutcome write applied), applied) := by
        rw [Db.applyAudited, hmade]
        rfl
      obtain ⟨hacks, hadmin⟩ := Prod.mk.inj <|
        batchLoop_noted (s := ⟨store.1, [], [], false⟩) hack hfound haudit hnext
      obtain ⟨ha, hn⟩ := applyBatch_notes ring store.1
        ⟨ahead ++ (.admin write (some row) ack, fault) :: behind, beginFails, commitFails⟩ hf.1
      refine answer_of_commit hc ?_ ?_
      · rw [ha]
        exact hacks
      · rw [hn]
        exact hadmin
    rw [hanswer]
    cases applied with
    | true =>
      exact ⟨fun _ => ⟨found, made, final, rfl, hfound, hmade, Db.applyAdmin_made hmade, hfinal⟩,
        by simp, by simp⟩
    | false =>
      have hint : found.Integrity :=
        applyAll_invariant Db.Integrity (fun _ _ _ h ha => h.attempt ha) store.2 hfound
      obtain ⟨rfl, hreason⟩ := hint.applyAdmin_false hmade
      refine ⟨by simp, fun _ => ⟨made, final, rfl, hfound, ?_⟩, by simp⟩
      rw [← hreason]
      exact hfinal

/-- A new tenant whose id is taken, behind a `Ping`: the caller reads `false`
    and the store has the row of a conflict. -/
theorem tier_a_atomic_conflict :
    let ring : KeyRing := ⟨1, [1]⟩
    let event : AuditRow := ⟨⟨5⟩, "tenant.create", "success", "user", some "root", some "default",
      none, none, none, none, none, none⟩
    let o := applyBatch ring (Db.fresh ⟨0⟩)
      (.ofCommands [.ping, .admin (.insertTenant "default" none ⟨5⟩) (some event) 7])
    o.answer 7 = some false ∧ o.committed = some ((Db.fresh ⟨0⟩).insertAudit { event with
      outcome := "failure"
      reason := some "conflict" }) := by
  intro ring event o
  have hanswer : o.answer 7 = some false := by decide
  obtain ⟨found, final, hc, hfound, hfinal⟩ :=
    (tier_a_atomic ring ⟨Db.fresh ⟨0⟩, Db.integrity_fresh ⟨0⟩⟩ false false [(.ping, false)] []
      (.insertTenant "default" none ⟨5⟩) event 7 false (by simp [Command.ack])).2.1 hanswer
  refine ⟨hanswer, hc.trans ?_⟩
  cases hfound
  exact hfinal.symm

end SessionBroker
