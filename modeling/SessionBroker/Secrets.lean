/-
  When a principal's secret authenticates.

  * `findLive_iff`: what the lookup asks of the rows;
  * `HistoryLive`: what it comes to over the writes that applied: the secret
    was added and neither revoked nor dated past, its principal not revoked and
    the last switch of its tenant not off;
  * `secret_authenticates_iff`: the lookup, the history and the listings say
    the same, after any admin writes and at any time.
-/
import SessionBroker.Directory

namespace SessionBroker

open Table Rows

/-! ## The lookup over rows -/

/-- Neither revoked nor past its date. -/
def SecretRecord.Live (now : Timestamp) (s : SecretRecord) : Prop :=
  s.revokedAt = none ∧ ∀ e ∈ s.expiresAt, now < e

theorem SecretRecord.listed_liveAt (s : SecretRecord) (now : Timestamp) :
    s.listed.liveAt now = true ↔ s.Live now := by
  cases hr : s.revokedAt <;> cases he : s.expiresAt <;>
    simp [SecretRow.liveAt, listed, Live, hr, he]

namespace Db

variable {db : Db} {hash : Bytes} {now : Timestamp} {principalId : String}

/-- A tenant that is there is enabled iff it is not disabled. -/
theorem Integrity.enabled_iff (h : db.Integrity) {t : TenantRow} (ht : t ∈ db.tenant) :
    t.disabledAt = none ↔ ¬db.tenantIsDisabled t.tenantId = true := by
  have hfind := UniqueOn.find?_eq h.tenantKey ht
  rw [tenantIsDisabled, hfind]
  cases hd : t.disabledAt <;> simp [hd]

/-- The tenant that a row refers to. -/
theorem Integrity.tenant_any (h : db.Integrity) {tenantId : String}
    (href : ∃ t ∈ db.tenant, t.tenantId = tenantId) :
    (db.tenant.any fun t => t.tenantId = tenantId ∧ t.disabledAt = none) = true ↔
      ¬db.tenantIsDisabled tenantId = true := by
  obtain ⟨t, ht, rfl⟩ := href
  rw [← h.enabled_iff ht, List.any_eq_true]
  constructor
  · rintro ⟨u, hu, hlive⟩
    obtain ⟨hsame, hnone⟩ := of_decide_eq_true hlive
    rwa [h.tenantKey.eq_of_key ht hu hsame.symm]
  · intro hnone
    exact ⟨t, ht, by simp [hnone]⟩

/-- **What the lookup asks.** -/
theorem Integrity.findLive_iff (h : db.Integrity) :
    (∃ p, db.findLivePrincipalBySecret hash now = some p ∧ p.principalId = principalId) ↔
      ∃ s ∈ db.principalSecret, s.secretHash = hash ∧ s.principalId = principalId ∧ s.Live now ∧
        ∃ p ∈ db.principal, p.principalId = principalId ∧ p.revokedAt = none ∧
          ¬db.tenantIsDisabled p.tenantId = true := by
  unfold findLivePrincipalBySecret
  constructor
  · rintro ⟨p, hp, rfl⟩
    obtain ⟨s, hs, hf⟩ := List.exists_of_findSome?_eq_some hp
    split_ifs at hf with hlive
    have hfound := List.find?_some hf
    obtain ⟨hid, hrev, hany⟩ := of_decide_eq_true hfound
    have hmem := List.mem_of_find?_eq_some hf
    exact ⟨s, hs, hlive.1, hid.symm, hlive.2, p, hmem, rfl, hrev, (h.tenant_any (h.principalTenant p hmem)).1 hany⟩
  · rintro ⟨s, hs, rfl, rfl, hlive, p, hp, hid, hrev, hon⟩
    have hfind : (db.principal.find? fun q => q.principalId = s.principalId ∧ q.revokedAt = none ∧
        db.tenant.any fun t => t.tenantId = q.tenantId ∧ t.disabledAt = none) = some p := by
      cases hq : db.principal.find? fun q => q.principalId = s.principalId ∧ q.revokedAt = none ∧
          db.tenant.any fun t => t.tenantId = q.tenantId ∧ t.disabledAt = none with
      | none =>
        refine absurd (decide_eq_true ?_) (List.find?_eq_none.1 hq p hp)
        exact ⟨hid, hrev, (h.tenant_any (h.principalTenant p hp)).2 hon⟩
      | some q =>
        have hfound := List.find?_some hq
        have hsame := (of_decide_eq_true hfound).1
        rw [h.principalKey.eq_of_key (List.mem_of_find?_eq_some hq) hp (hsame.trans hid.symm)]
    refine ⟨p, ?_, hid⟩
    -- no other secret has the hash
    have hall : ∀ r ∈ db.principalSecret, (if r.secretHash = s.secretHash ∧ r.revokedAt = none ∧
        ∀ e ∈ r.expiresAt, now < e then db.principal.find? fun q => q.principalId = r.principalId ∧
          q.revokedAt = none ∧ db.tenant.any fun t => t.tenantId = q.tenantId ∧ t.disabledAt = none
        else none) = if r = s then some p else none := by
      intro r hr
      by_cases hrs : r = s
      · subst hrs
        rw [if_pos ⟨rfl, hlive⟩, if_pos rfl, hfind]
      · rw [if_neg hrs, if_neg fun hx => hrs (h.secretHash.eq_of_key hr hs hx.1)]
    cases hfs : db.principalSecret.findSome? fun r => if r.secretHash = s.secretHash ∧
        r.revokedAt = none ∧ ∀ e ∈ r.expiresAt, now < e then db.principal.find? fun q =>
          q.principalId = r.principalId ∧ q.revokedAt = none ∧
            db.tenant.any fun t => t.tenantId = q.tenantId ∧ t.disabledAt = none
        else none with
    | none =>
      have hnone := List.findSome?_eq_none_iff.1 hfs s hs
      rw [hall s hs, if_pos rfl] at hnone
      cases hnone
    | some q =>
      obtain ⟨r, hr, hq⟩ := List.exists_of_findSome?_eq_some hfs
      rw [hall r hr] at hq
      split_ifs at hq
      exact hq.symm

end Db

/-! ## Histories -/

namespace AdminWrite

variable {now : Timestamp}

/-- The write revokes the secret, or ends the others of its principal by `now`. -/
def Ends (now : Timestamp) (write : AdminWrite) (s : SecretRecord) : Prop :=
  (∃ t, write = revokePrincipalSecret s.principalId s.secretId t) ∨
    ∃ secret at_ t, write = addPrincipalSecret s.principalId secret (some at_) t ∧ at_ ≤ now

/-- What a write leaves alone of a secret. -/
theorem ontoSecret_id (write : AdminWrite) (s : SecretRecord) :
    ((write.ontoSecret s).secretId, (write.ontoSecret s).principalId,
      (write.ontoSecret s).secretHash) = (s.secretId, s.principalId, s.secretHash) := by
  unfold ontoSecret
  split
  · split_ifs <;> rfl
  · split_ifs <;> rfl
  · rfl

/-- **One write and a secret.** -/
theorem ontoSecret_live (write : AdminWrite) (s : SecretRecord) :
    (write.ontoSecret s).Live now ↔ s.Live now ∧ ¬write.Ends now s := by
  have other : (∀ secret at_ t, write ≠ addPrincipalSecret s.principalId secret (some at_) t) →
      (∀ t, write ≠ revokePrincipalSecret s.principalId s.secretId t) → ¬write.Ends now s := by
    rintro hadd hrevoke (⟨t, h⟩ | ⟨secret, at_, t, h, -⟩)
    · exact hrevoke t h
    · exact hadd secret at_ t h
  cases write with
  | addPrincipalSecret principalId secret expireOthersAt t =>
    cases expireOthersAt with
    | none =>
      refine (and_iff_left (other (fun _ _ _ h => ?_) fun _ h => ?_)).symm
      · cases h
      · cases h
    | some at_ =>
      by_cases hid : s.principalId = principalId
      · subst hid
        have hends : (addPrincipalSecret s.principalId secret (some at_) t).Ends now s ↔ at_ ≤ now := by
          constructor
          · rintro (⟨t', h⟩ | ⟨secret', at', t', h, hle⟩)
            · cases h
            · cases h
              exact hle
          · exact fun hle => Or.inr ⟨secret, at_, t, rfl, hle⟩
        rw [hends, not_le]
        cases hr : s.revokedAt with
        | some r => simp [ontoSecret, SecretRecord.Live, hr]
        | none =>
          cases he : s.expiresAt with
          | none => simp [ontoSecret, SecretRecord.Live, hr, he]
          | some e =>
            by_cases hlt : at_ < e
            · -- shortened
              have hboth : now < at_ ↔ now < e ∧ now < at_ :=
                ⟨fun h => ⟨h.trans hlt, h⟩, fun h => h.2⟩
              simpa [ontoSecret, SecretRecord.Live, hr, he, hlt] using hboth
            · have hboth : now < e ↔ now < e ∧ now < at_ :=
                ⟨fun h => ⟨h, h.trans_le (not_lt.1 hlt)⟩, fun h => h.1⟩
              simpa [ontoSecret, SecretRecord.Live, hr, he, hlt] using hboth
      · have hsame : (addPrincipalSecret principalId secret (some at_) t).ontoSecret s = s := by
          simp [ontoSecret, hid]
        rw [hsame]
        refine (and_iff_left (other (fun _ _ _ h => ?_) fun _ h => ?_)).symm
        · cases h
          exact hid rfl
        · cases h
  | revokePrincipalSecret principalId secretId t =>
    by_cases hid : s.secretId = secretId ∧ s.principalId = principalId
    · obtain ⟨rfl, rfl⟩ := hid
      have hends : (revokePrincipalSecret s.principalId s.secretId t).Ends now s := Or.inl ⟨t, rfl⟩
      cases hr : s.revokedAt <;> simp [ontoSecret, SecretRecord.Live, hr, hends]
    · have hsame : (revokePrincipalSecret principalId secretId t).ontoSecret s = s := by
        unfold ontoSecret
        exact if_neg fun h => hid ⟨h.1, h.2.1⟩
      rw [hsame]
      refine (and_iff_left (other (fun _ _ _ h => ?_) fun _ h => ?_)).symm
      · cases h
      · cases h
        exact hid ⟨rfl, rfl⟩
  | _ =>
    refine (and_iff_left (other (fun _ _ _ h => ?_) fun _ h => ?_)).symm
    · cases h
    · cases h

/-- What a write leaves alone of a principal. -/
theorem ontoPrincipal_id (write : AdminWrite) (p : PrincipalRow) :
    ((write.ontoPrincipal p).principalId, (write.ontoPrincipal p).tenantId) =
      (p.principalId, p.tenantId) := by
  unfold ontoPrincipal
  split
  · split_ifs <;> rfl
  · split_ifs <;> rfl
  · rfl

def Revokes (write : AdminWrite) (p : PrincipalRow) : Prop :=
  ∃ t, write = revokePrincipal p.principalId t

/-- **One write and a principal.** -/
theorem ontoPrincipal_live (write : AdminWrite) (p : PrincipalRow) :
    (write.ontoPrincipal p).revokedAt = none ↔ p.revokedAt = none ∧ ¬write.Revokes p := by
  unfold Revokes
  cases write with
  | revokePrincipal principalId t =>
    by_cases hid : p.principalId = principalId
    · subst hid
      cases hr : p.revokedAt <;> simp [ontoPrincipal, hr]
    · simp [ontoPrincipal, hid, Ne.symm hid]
  | touchPrincipal principalId t =>
    by_cases hid : p.principalId = principalId <;> simp [ontoPrincipal, hid]
  | _ => simp [ontoPrincipal]

end AdminWrite

/-- A write that applied brought the secret `s`, and `later` applied after it. -/
def Added (applied : List AdminWrite) (s : SecretRecord) (later : List AdminWrite) : Prop :=
  ∃ before write, applied = before ++ write :: later ∧ s ∈ write.secrets

/-- A secret as it was added is live by what applied since. -/
structure HistoryLive (applied : List AdminWrite) (s : SecretRecord) (later : List AdminWrite)
    (now : Timestamp) : Prop where
  unrevoked : ∀ t, .revokePrincipalSecret s.principalId s.secretId t ∉ later
  unexpired : ∀ e ∈ s.expiresAt, now < e
  undated : ∀ secret at_ t,
    .addPrincipalSecret s.principalId secret (some at_) t ∈ later → now < at_
  /-- its principal is not revoked, the last switch of its tenant not off -/
  principal : ∃ before p t after, applied = before ++ .insertPrincipal p t :: after ∧
    p.principalId = s.principalId ∧ (∀ u, .revokePrincipal s.principalId u ∉ after) ∧
    (applied.filterMap (·.switches p.tenantId)).getLast? ≠ some false

/-- What the listings show of a secret, its principal and its tenant. -/
structure Db.Listed (db : Db) (s : SecretRecord) (row : SecretRow) (p : PrincipalRow)
    (t : TenantRow) : Prop where
  secret : row ∈ db.listPrincipalSecrets s.principalId ∧ row.secretId = s.secretId
  principal : p ∈ db.listPrincipals none ∧ p.principalId = s.principalId
  tenant : t ∈ db.listTenants ∧ t.tenantId = p.tenantId

namespace Directory

variable {d : Directory} {hash : Bytes} {now : Timestamp} {principalId : String}

/-- The secrets there, each with the write that brought it. -/
theorem Kept.exists_secret (h : d.Kept) {P : SecretRecord → Prop} :
    (∃ s ∈ d.db.principalSecret, P s) ↔
      ∃ s later, Added d.applied s later ∧ P (after AdminWrite.ontoSecret s later) := by
  rw [h.secrets]
  constructor
  · rintro ⟨s, hs, hP⟩
    obtain ⟨before, write, later, r₀, happ, hborn, rfl⟩ := mem_rows.1 hs
    exact ⟨r₀, later, ⟨before, write, happ, hborn⟩, hP⟩
  · rintro ⟨s, later, ⟨before, write, happ, hborn⟩, hP⟩
    exact ⟨_, mem_rows.2 ⟨before, write, later, s, happ, hborn, rfl⟩, hP⟩

theorem after_secret (s : SecretRecord) (later : List AdminWrite) :
    (after AdminWrite.ontoSecret s later).secretId = s.secretId ∧
      (after AdminWrite.ontoSecret s later).principalId = s.principalId ∧
      (after AdminWrite.ontoSecret s later).secretHash = s.secretHash := by
  have h := after_eq (f := fun s : SecretRecord => (s.secretId, s.principalId, s.secretHash))
    AdminWrite.ontoSecret_id s later
  simpa using h

/-- **A secret is live** iff no later write ended it. -/
theorem after_secret_live (s : SecretRecord) (later : List AdminWrite) :
    (after AdminWrite.ontoSecret s later).Live now ↔
      s.Live now ∧ ∀ write ∈ later, ¬write.Ends now s := by
  refine after_iff AdminWrite.ontoSecret_live (fun write write' r => ?_) s later
  have hid := AdminWrite.ontoSecret_id write' r
  simp only [Prod.mk.injEq] at hid
  rw [AdminWrite.Ends, AdminWrite.Ends, hid.1, hid.2.1]

/-- A principal that is not revoked, in a tenant that is not disabled. -/
theorem Kept.exists_principal (h : d.Kept) :
    (∃ p ∈ d.db.principal, p.principalId = principalId ∧ p.revokedAt = none ∧
        ¬d.db.tenantIsDisabled p.tenantId = true) ↔
      ∃ before p t later, d.applied = before ++ .insertPrincipal p t :: later ∧
        p.principalId = principalId ∧ (∀ u, .revokePrincipal principalId u ∉ later) ∧
        (d.applied.filterMap (·.switches p.tenantId)).getLast? ≠ some false := by
  have hlive : ∀ (r : PrincipalRow) (later : List AdminWrite),
      (after AdminWrite.ontoPrincipal r later).revokedAt = none ↔
        r.revokedAt = none ∧ ∀ write ∈ later, ¬write.Revokes r := by
    intro r later
    refine after_iff (p := fun r => r.revokedAt = none) AdminWrite.ontoPrincipal_live
      (fun write write' r => ?_) r later
    have hid := AdminWrite.ontoPrincipal_id write' r
    simp only [Prod.mk.injEq] at hid
    rw [AdminWrite.Revokes, AdminWrite.Revokes, hid.1]
  have hids : ∀ (r : PrincipalRow) (later : List AdminWrite),
      (after AdminWrite.ontoPrincipal r later).principalId = r.principalId ∧
        (after AdminWrite.ontoPrincipal r later).tenantId = r.tenantId := by
    intro r later
    have h := after_eq (f := fun p : PrincipalRow => (p.principalId, p.tenantId))
      AdminWrite.ontoPrincipal_id r later
    simpa using h
  rw [h.principals]
  constructor
  · rintro ⟨p, hp, hid, hrev, hon⟩
    obtain ⟨before, write, later, r₀, happ, hborn, rfl⟩ := mem_rows.1 hp
    cases write with
    | insertPrincipal q t =>
      obtain rfl := List.mem_singleton.1 hborn
      rw [(hids _ _).1] at hid
      rw [(hids _ _).2, h.disabled] at hon
      have hnone := ((hlive _ _).1 hrev).2
      refine ⟨before, q, t, later, happ, hid, fun u hu => ?_, hon⟩
      exact hnone _ hu ⟨u, by rw [← hid]⟩
    | _ => cases hborn
  · rintro ⟨before, q, t, later, happ, hid, hnone, hon⟩
    refine ⟨_, mem_rows.2 ⟨before, _, later, _, happ, List.mem_singleton_self _, rfl⟩, ?_, ?_, ?_⟩
    · rw [(hids _ _).1]
      exact hid
    · refine (hlive _ _).2 ⟨rfl, ?_⟩
      rintro write hw ⟨u, rfl⟩
      refine hnone u ?_
      rw [← hid]
      exact hw
    · rw [(hids _ _).2, h.disabled]
      exact hon

/-- The rows of a secret and of its principal and tenant are listed. -/
theorem Kept.listed_iff (h : d.Kept) {s : SecretRecord} {later : List AdminWrite}
    (hs : Added d.applied s later) {row : SecretRow} {p : PrincipalRow} {t : TenantRow} :
    d.db.Listed s row p t ↔ row = (after AdminWrite.ontoSecret s later).listed ∧
      p ∈ d.db.principal ∧ p.principalId = s.principalId ∧ t ∈ d.db.tenant ∧
      t.tenantId = p.tenantId := by
  obtain ⟨hid, hprincipal, -⟩ := after_secret s later
  have hmem : after AdminWrite.ontoSecret s later ∈ d.db.principalSecret := by
    obtain ⟨before, write, happ, hborn⟩ := hs
    rw [h.secrets]
    exact mem_rows.2 ⟨before, write, later, s, happ, hborn, rfl⟩
  have hsecret : (row ∈ d.db.listPrincipalSecrets s.principalId ∧ row.secretId = s.secretId) ↔
      row = (after AdminWrite.ontoSecret s later).listed := by
    simp only [Db.listPrincipalSecrets, List.mem_map, Latest.mem_newestFirst, List.mem_reverse,
      List.mem_filter, decide_eq_true_eq]
    constructor
    · rintro ⟨⟨r, ⟨hr, -⟩, rfl⟩, hkey⟩
      rw [h.integrity.secretKey.eq_of_key hr hmem (hkey.trans hid.symm)]
    · rintro rfl
      exact ⟨⟨_, ⟨hmem, hprincipal⟩, rfl⟩, hid⟩
  have hprincipals : p ∈ d.db.listPrincipals none ↔ p ∈ d.db.principal := by
    simp [Db.listPrincipals]
  have htenants : t ∈ d.db.listTenants ↔ t ∈ d.db.tenant := by
    simp [Db.listTenants]
  constructor
  · rintro ⟨hrow, hp, ht⟩
    exact ⟨hsecret.1 hrow, hprincipals.1 hp.1, hp.2, htenants.1 ht.1, ht.2⟩
  · rintro ⟨hrow, hp, hpid, ht, htid⟩
    exact ⟨hsecret.2 hrow, ⟨hprincipals.2 hp, hpid⟩, ⟨htenants.2 ht, htid⟩⟩

/-- **When a secret authenticates.**  After any admin writes and at any time,
    the lookup of a hash finds a principal iff a secret of that hash was added to
    it and is live by its history; and for every secret added, iff the listed
    secret is live, the listed principal not revoked and the listed tenant not
    disabled. -/
theorem secret_authenticates_iff (ring : KeyRing) (made : Timestamp) (writes : List AdminWrite)
    (now : Timestamp) :
    (∀ hash principalId,
      (∃ p, (directory ring made writes).db.findLivePrincipalBySecret hash now = some p ∧
          p.principalId = principalId) ↔
        ∃ s later, Added (directory ring made writes).applied s later ∧ s.secretHash = hash ∧
          s.principalId = principalId ∧
          HistoryLive (directory ring made writes).applied s later now) ∧
    ∀ s later, Added (directory ring made writes).applied s later →
      (∃ row p t, (directory ring made writes).db.Listed s row p t) ∧
      ∀ row p t, (directory ring made writes).db.Listed s row p t →
        ((∃ q, (directory ring made writes).db.findLivePrincipalBySecret s.secretHash now = some q ∧
            q.principalId = s.principalId) ↔
          row.liveAt now = true ∧ p.revokedAt = none ∧ t.disabledAt = none) := by
  have hk := kept_run ring made writes
  set d := directory ring made writes
  constructor
  · intro hash principalId
    rw [hk.integrity.findLive_iff, hk.exists_secret]
    refine exists_congr fun s => exists_congr fun later => and_congr_right fun hadd => ?_
    obtain ⟨-, hprincipal, hhash⟩ := after_secret s later
    rw [hprincipal, hhash, after_secret_live, hk.exists_principal]
    refine and_congr_right fun _ => and_congr_right fun hid => ?_
    subst hid
    have hfirst : s.revokedAt = none := by
      obtain ⟨before, write, -, hborn⟩ := hadd
      cases write with
      | insertPrincipal p t =>
        rw [List.mem_singleton.1 hborn]
      | addPrincipalSecret i secret o t =>
        rw [List.mem_singleton.1 hborn]
      | _ => cases hborn
    constructor
    · rintro ⟨⟨⟨-, hexp⟩, hends⟩, hp⟩
      refine ⟨fun t ht => ?_, hexp, fun secret at_ t ht => ?_, hp⟩
      · exact hends _ ht (Or.inl ⟨t, rfl⟩)
      · by_contra hle
        exact hends _ ht (Or.inr ⟨secret, at_, t, rfl, not_lt.1 hle⟩)
    · rintro ⟨hrev, hexp, hdate, hp⟩
      refine ⟨⟨⟨hfirst, hexp⟩, ?_⟩, hp⟩
      rintro write hw (⟨t, rfl⟩ | ⟨secret, at_, t, rfl, hle⟩)
      · exact hrev t hw
      · exact absurd (hdate secret at_ t hw) (not_lt.2 hle)
  · intro s later hadd
    obtain ⟨hid, hprincipal, hhash⟩ := after_secret s later
    have hmem : after AdminWrite.ontoSecret s later ∈ d.db.principalSecret := by
      obtain ⟨before, write, happ, hborn⟩ := hadd
      rw [hk.secrets]
      exact mem_rows.2 ⟨before, write, later, s, happ, hborn, rfl⟩
    constructor
    · obtain ⟨p, hp, hpid⟩ := hk.integrity.secretPrincipal _ hmem
      obtain ⟨t, ht, htid⟩ := hk.integrity.principalTenant p hp
      exact ⟨_, p, t, (hk.listed_iff hadd).2 ⟨rfl, hp, hpid.trans hprincipal, ht, htid⟩⟩
    · intro row p t hl
      obtain ⟨rfl, hp, hpid, ht, htid⟩ := (hk.listed_iff hadd).1 hl
      rw [hk.integrity.findLive_iff, SecretRecord.listed_liveAt, hk.integrity.enabled_iff ht, htid]
      constructor
      · rintro ⟨r, hr, hrhash, -, hlive, q, hq, hqid, hrev, hon⟩
        rw [hk.integrity.secretHash.eq_of_key hr hmem (hrhash.trans hhash.symm)] at hlive
        rw [hk.integrity.principalKey.eq_of_key hq hp (hqid.trans hpid.symm)] at hrev hon
        exact ⟨hlive, hrev, hon⟩
      · rintro ⟨hlive, hrev, hon⟩
        exact ⟨_, hmem, hhash, hprincipal, hlive, p, hp, hpid, hrev, hon⟩

end Directory

end SessionBroker
