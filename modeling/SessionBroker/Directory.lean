/-
  Tenants, principals with their secrets, and user grants, over histories of
  admin writes.

  * The listings of `store/repo.rs`, and `SecretRow::live_at`;
  * `Directory`: the database after a sequence of admin writes, each committed
    alone, and those of them that applied;
  * `directory_rows`: the secrets and principals there are those that applied
    writes brought, each as the later ones left it;
  * `directory_disabled`: a tenant is disabled iff the last switch of it that
    applied disabled it.
-/
import SessionBroker.Integrity
import SessionBroker.TokenRoute
import SessionBroker.Lib.Latest
import SessionBroker.Lib.Rows

namespace SessionBroker

open Table Runs Latest

/-! ## Listings -/

/-- A listed secret, without its hash. -/
structure SecretRow where
  secretId : String
  createdAt : Timestamp
  expiresAt : Option Timestamp
  revokedAt : Option Timestamp
deriving DecidableEq, Repr

/-- `SecretRow::live_at`. -/
def SecretRow.liveAt (s : SecretRow) (now : Timestamp) : Bool :=
  s.revokedAt.isNone && s.expiresAt.all fun at_ => now < at_

def SecretRecord.listed (s : SecretRecord) : SecretRow :=
  ⟨s.secretId, s.createdAt, s.expiresAt, s.revokedAt⟩

namespace Db

/-- `list_principal_secrets`. -/
def listPrincipalSecrets (db : Db) (principalId : String) : List SecretRow :=
  (newestFirst (·.createdAt) (db.principalSecret.filter (·.principalId = principalId)).reverse).map
    SecretRecord.listed

/-- `list_principals`. -/
def listPrincipals (db : Db) (tenantId : Option String) : List PrincipalRow :=
  newestFirst (·.createdAt)
    (db.principal.filter fun p => tenantId.all (p.tenantId = ·)).reverse

/-- `list_tenants`. -/
def listTenants (db : Db) : List TenantRow := db.tenant.mergeSort fun t u => t.tenantId ≤ u.tenantId

/-- `list_user_grants`. -/
def listUserGrants (db : Db) (tenantId sub : Option String) : List UserGrantRow :=
  newestFirst (·.createdAt)
    (db.userGrant.filter fun g => tenantId.all (g.tenantId = ·) && sub.all (g.sub = ·)).reverse

/-- `find_live_user_grants`. -/
def findLiveUserGrants (db : Db) (sub : String) : List UserGrantRow :=
  newestFirst (·.createdAt) (db.userGrant.filter fun g => g.sub = sub ∧ g.revokedAt = none ∧
    db.tenant.any fun t => t.tenantId = g.tenantId ∧ t.disabledAt = none).reverse

end Db

/-! ## Histories -/

/-- The database, and the admin writes that applied to it so far. -/
structure Directory where
  db : Db
  applied : List AdminWrite

/-- One write, committed alone: where SQLite refuses it nothing changes. -/
def Directory.step (ring : KeyRing) (d : Directory) (write : AdminWrite) : Directory :=
  match d.db.applyAdmin ring write with
  | none => d
  | some (db, applied) => ⟨db, if applied then d.applied ++ [write] else d.applied⟩

/-- A new database after admin writes. -/
def directory (ring : KeyRing) (made : Timestamp) (writes : List AdminWrite) : Directory :=
  run (Directory.step ring) ⟨Db.fresh made, []⟩ writes

theorem directory_concat (ring : KeyRing) (made : Timestamp) (writes : List AdminWrite)
    (write : AdminWrite) : directory ring made (writes ++ [write]) =
      (directory ring made writes).step ring write :=
  run_concat ..

namespace AdminWrite

/-- The secrets a write brings. -/
def secrets : AdminWrite → List SecretRecord
  | insertPrincipal p now =>
    [⟨p.secret.secretId, p.principalId, p.secret.hash, now, p.secret.expiresAt, none⟩]
  | addPrincipalSecret principalId secret _ now =>
    [⟨secret.secretId, principalId, secret.hash, now, secret.expiresAt, none⟩]
  | _ => []

/-- What a write does to a secret that is there. -/
def ontoSecret : AdminWrite → SecretRecord → SecretRecord
  | addPrincipalSecret principalId _ (some at_) _, s =>
    if decide (s.principalId = principalId ∧ s.revokedAt = none) &&
      s.expiresAt.all fun e => decide (at_ < e) then { s with expiresAt := some at_ } else s
  | revokePrincipalSecret principalId secretId now, s =>
    if s.secretId = secretId ∧ s.principalId = principalId ∧ s.revokedAt = none then
      { s with revokedAt := some now } else s
  | _, s => s

/-- The principals a write brings. -/
def principals : AdminWrite → List PrincipalRow
  | insertPrincipal p now => [{
      principalId := p.principalId
      tenantId := p.tenantId
      name := p.name
      kind := p.kind
      scopes := p.scopes
      indexes := p.indexes
      audience := p.audience
      maxTtlSecs := asI64 p.maxTtlSecs
      createdAt := now
      createdBy := p.createdBy
      lastUsedAt := none
      revokedAt := none }]
  | _ => []

/-- What a write does to a principal that is there. -/
def ontoPrincipal : AdminWrite → PrincipalRow → PrincipalRow
  | revokePrincipal principalId now, p =>
    if p.principalId = principalId ∧ p.revokedAt = none then { p with revokedAt := some now } else p
  | touchPrincipal principalId now, p =>
    if p.principalId = principalId then { p with lastUsedAt := some now } else p
  | _, p => p

/-- The switch of a tenant a write is: off or on. -/
def switches (tenantId : String) : AdminWrite → Option Bool
  | disableTenant t _ => if t = tenantId then some false else none
  | enableTenant t => if t = tenantId then some true else none
  | _ => none

end AdminWrite

namespace Db

variable {ring : KeyRing} {db db' : Db} {write : AdminWrite} {applied : Bool}

/-- What a write leaves of the secrets and principals. -/
structure Onto (db db' : Db) (write : AdminWrite) : Prop where
  secrets : db'.principalSecret = db.principalSecret.map write.ontoSecret ++ write.secrets
  principals : db'.principal = db.principal.map write.ontoPrincipal ++ write.principals

theorem insertSecret_eq {principalId : String} {secret : NewSecret} {now : Timestamp}
    (h : db.insertSecret principalId secret now = some db') :
    db' = { db with principalSecret := db.principalSecret ++
      [⟨secret.secretId, principalId, secret.hash, now, secret.expiresAt, none⟩] } := by
  unfold insertSecret at h
  split_ifs at h
  obtain ⟨rows, hrows, rfl⟩ := Option.map_eq_some_iff.1 h
  rw [(insertRow_eq_some.1 hrows).2]

@[simp] theorem insertTenant_principal (db : Db) (tenantId : String) (name : Option String)
    (now : Timestamp) : (db.insertTenant tenantId name now).1.principal = db.principal ∧
      (db.insertTenant tenantId name now).1.principalSecret = db.principalSecret ∧
      (db.insertTenant tenantId name now).1.userGrant = db.userGrant := by
  unfold insertTenant
  split
  · exact ⟨rfl, rfl, rfl⟩
  · exact ⟨rfl, rfl, rfl⟩

/-- A write that is about neither. -/
theorem Onto.of_eq (hs : db'.principalSecret = db.principalSecret) (hp : db'.principal = db.principal)
    (hsecret : ∀ s, write.ontoSecret s = s) (hprincipal : ∀ p, write.ontoPrincipal p = p)
    (hnew : write.secrets = [] ∧ write.principals = []) : db.Onto db' write := by
  constructor
  · rw [hs, hnew.1, List.append_nil, List.map_congr_left fun s _ => hsecret s, List.map_id']
  · rw [hp, hnew.2, List.append_nil, List.map_congr_left fun p _ => hprincipal p, List.map_id']

/-- **What one write does** to the secrets and principals. -/
theorem applyAdmin_onto (h : db.applyAdmin ring write = some (db', applied)) :
    (applied = true → db.Onto db' write) ∧ (applied = false →
      db'.principalSecret = db.principalSecret ∧ db'.principal = db.principal) := by
  have same : db'.principalSecret = db.principalSecret → db'.principal = db.principal →
      (∀ s, write.ontoSecret s = s) → (∀ p, write.ontoPrincipal p = p) →
      write.secrets = [] ∧ write.principals = [] →
      (applied = true → db.Onto db' write) ∧ (applied = false →
        db'.principalSecret = db.principalSecret ∧ db'.principal = db.principal) :=
    fun hs hp hsecret hprincipal hnew => ⟨fun _ => .of_eq hs hp hsecret hprincipal hnew, fun _ => ⟨hs, hp⟩⟩
  cases write with
  | insertApiKey keyId name keyHash createdBy now =>
    obtain ⟨db₁, hd, he⟩ := Option.map_eq_some_iff.1 h
    cases he
    unfold insertApiKey at hd
    split_ifs at hd
    obtain ⟨_, -, rfl⟩ := Option.map_eq_some_iff.1 hd
    exact same rfl rfl (fun _ => rfl) (fun _ => rfl) ⟨rfl, rfl⟩
  | insertSigningKey key now =>
    obtain ⟨db₁, hd, he⟩ := Option.map_eq_some_iff.1 h
    cases he
    obtain ⟨_, -, rfl⟩ := Option.map_eq_some_iff.1 hd
    exact same rfl rfl (fun _ => rfl) (fun _ => rfl) ⟨rfl, rfl⟩
  | rotateSigningKey key now activateAt retireAt =>
    obtain ⟨db₁, hd, he⟩ := Option.map_eq_some_iff.1 h
    cases he
    obtain ⟨_, -, rfl⟩ := Option.map_eq_some_iff.1 hd
    exact same rfl rfl (fun _ => rfl) (fun _ => rfl) ⟨rfl, rfl⟩
  | insertTenant tenantId displayName now =>
    obtain ⟨rfl, -⟩ := Prod.mk.inj (Option.some.inj h)
    obtain ⟨hp, hs, -⟩ := insertTenant_principal db tenantId displayName now
    exact same hs hp (fun _ => rfl) (fun _ => rfl) ⟨rfl, rfl⟩
  | insertUserGrant g now =>
    obtain ⟨hp, hs, -⟩ := insertTenant_principal db g.tenantId none now
    have h' := Option.some.inj h
    unfold insertUserGrant at h'
    dsimp only at h'
    split_ifs at h'
    all_goals
      cases h'
      exact same hs hp (fun _ => rfl) (fun _ => rfl) ⟨rfl, rfl⟩
  | insertProvider p now =>
    have h' := Option.some.inj h
    unfold insertProvider at h'
    dsimp only at h'
    split_ifs at h'
    all_goals
      cases h'
      exact same rfl rfl (fun _ => rfl) (fun _ => rfl) ⟨rfl, rfl⟩
  | insertPrincipal p now =>
    obtain ⟨hp, hs, -⟩ := insertTenant_principal db p.tenantId none now
    unfold applyAdmin insertPrincipal at h
    dsimp only at h
    split_ifs at h
    · cases h
      exact ⟨fun h => (Bool.false_ne_true h).elim, fun _ => ⟨hs, hp⟩⟩
    · cases h
      exact ⟨fun h => (Bool.false_ne_true h).elim, fun _ => ⟨hs, hp⟩⟩
    · obtain ⟨db₁, hb, he⟩ := Option.map_eq_some_iff.1 h
      cases he
      obtain ⟨rows, hrows, hsecret⟩ := Option.bind_eq_some_iff.1 hb
      rw [insertSecret_eq hsecret]
      refine ⟨fun _ => ⟨?_, ?_⟩, fun h => (Bool.false_ne_true h.symm).elim⟩
      · show _ ++ _ = db.principalSecret.map id ++ _
        rw [List.map_id]
        exact congrArg (· ++ _) hs
      · show rows = db.principal.map id ++ _
        rw [List.map_id, (insertRow_eq_some.1 hrows).2]
        exact congrArg (· ++ _) hp
  | addPrincipalSecret principalId secret expireOthersAt now =>
    unfold applyAdmin addPrincipalSecret at h
    dsimp only at h
    split_ifs at h
    · obtain ⟨db₁, hd, he⟩ := Option.map_eq_some_iff.1 h
      cases he
      rw [insertSecret_eq hd]
      refine ⟨fun _ => ⟨?_, ?_⟩, fun h => (Bool.false_ne_true h.symm).elim⟩
      · cases expireOthersAt with
        | none =>
          show _ = db.principalSecret.map id ++ _
          rw [List.map_id]
          rfl
        | some at_ => rfl
      · show _ = db.principal.map id ++ []
        rw [List.map_id, List.append_nil]
        cases expireOthersAt <;> rfl
    · cases h
      exact ⟨fun h => (Bool.false_ne_true h).elim, fun _ => ⟨rfl, rfl⟩⟩
  | revokePrincipalSecret principalId secretId now =>
    obtain ⟨rfl, rfl⟩ := Prod.mk.inj (Option.some.inj h)
    refine ⟨fun _ => ⟨?_, ?_⟩, fun hnone => ⟨updateWhere_of_none hnone, rfl⟩⟩
    · rw [show (AdminWrite.revokePrincipalSecret principalId secretId now).secrets = [] from rfl,
        List.append_nil]
      refine List.map_congr_left fun s _ => ?_
      simp only [decide_eq_true_eq]
      rfl
    · show _ = db.principal.map id ++ []
      rw [List.map_id, List.append_nil]
  | revokePrincipal principalId now =>
    obtain ⟨rfl, rfl⟩ := Prod.mk.inj (Option.some.inj h)
    refine ⟨fun _ => ⟨?_, ?_⟩, fun hnone => ⟨rfl, updateWhere_of_none hnone⟩⟩
    · show _ = db.principalSecret.map id ++ []
      rw [List.map_id, List.append_nil]
    · rw [show (AdminWrite.revokePrincipal principalId now).principals = [] from rfl,
        List.append_nil]
      refine List.map_congr_left fun p _ => ?_
      simp only [decide_eq_true_eq]
      rfl
  | touchPrincipal principalId now =>
    obtain ⟨rfl, rfl⟩ := Prod.mk.inj (Option.some.inj h)
    refine ⟨fun _ => ⟨?_, ?_⟩, fun h => (Bool.false_ne_true h.symm).elim⟩
    · show _ = db.principalSecret.map id ++ []
      rw [List.map_id, List.append_nil]
      rfl
    · rw [show (AdminWrite.touchPrincipal principalId now).principals = [] from rfl,
        List.append_nil]
      refine List.map_congr_left fun p _ => ?_
      simp only [decide_eq_true_eq]
      rfl
  | _ =>
    cases h
    exact same rfl rfl (fun _ => rfl) (fun _ => rfl) ⟨rfl, rfl⟩

/-! ## Tenants -/

theorem insertTenant_disabled (db : Db) (tenantId : String) (name : Option String) (now : Timestamp)
    (t : String) :
    (db.insertTenant tenantId name now).1.tenantIsDisabled t = db.tenantIsDisabled t := by
  unfold insertTenant
  cases hi : insertRow (·.tenantId) db.tenant ⟨tenantId, name, now, none⟩ with
  | none => rfl
  | some rows =>
    obtain ⟨-, rfl⟩ := insertRow_eq_some.1 hi
    simp only [tenantIsDisabled, List.find?_append]
    cases db.tenant.find? fun u => u.tenantId = t with
    | some row => rfl
    | none =>
      -- a tenant is new only once, and enabled then
      by_cases ht : tenantId = t
      · simp [ht]
      · simp [ht]

/-- Whether a tenant is disabled after an update of some rows. -/
theorem tenantIsDisabled_update (db : Db) {p : TenantRow → Bool} {f : TenantRow → TenantRow}
    (hf : ∀ u, (f u).tenantId = u.tenantId) (t : String) :
    tenantIsDisabled { db with tenant := updateWhere p f db.tenant } t =
      (db.tenant.find? fun u => u.tenantId = t).any fun u =>
        (if p u then f u else u).disabledAt.isSome := by
  unfold tenantIsDisabled
  rw [find?_updateWhere hf]
  cases db.tenant.find? fun u => u.tenantId = t <;> rfl

theorem disableTenant_disabled (db : Db) (tenantId : String) (now : Timestamp) (t : String) :
    (db.disableTenant tenantId now).1.tenantIsDisabled t =
      if t = tenantId ∧ (db.disableTenant tenantId now).2 then true else db.tenantIsDisabled t := by
  have hrow := tenantIsDisabled_update db
    (p := fun u => decide (u.tenantId = tenantId ∧ u.disabledAt = none))
    (f := fun u => { u with disabledAt := some now }) (fun _ => rfl) t
  unfold disableTenant
  dsimp only
  rw [hrow]
  unfold tenantIsDisabled
  cases hfind : db.tenant.find? fun u => u.tenantId = t with
  | none =>
    have hno : ∀ u ∈ db.tenant, u.tenantId ≠ t := fun u hu => by
      simpa using List.find?_eq_none.1 hfind u hu
    have hany : ¬(t = tenantId ∧
        (db.tenant.any fun u => decide (u.tenantId = tenantId ∧ u.disabledAt = none)) = true) := by
      rintro ⟨rfl, hany⟩
      obtain ⟨u, hu, hid⟩ := List.any_eq_true.1 hany
      exact hno u hu (of_decide_eq_true hid).1
    rw [if_neg hany]
    rfl
  | some row =>
    have hid : row.tenantId = t := by simpa using List.find?_some hfind
    by_cases ht : t = tenantId
    · cases hd : row.disabledAt with
      | none =>
        have hany : (db.tenant.any fun u => decide (u.tenantId = tenantId ∧ u.disabledAt = none)) =
            true :=
          List.any_eq_true.2 ⟨row, List.mem_of_find?_eq_some hfind, by simp [hid, ht, hd]⟩
        rw [if_pos ⟨ht, hany⟩]
        simp [hid, ht, hd]
      | some at_ => simp [hd]
    · simp [hid, ht]

theorem enableTenant_disabled (db : Db) (tenantId t : String) :
    (db.enableTenant tenantId).1.tenantIsDisabled t =
      if t = tenantId then false else db.tenantIsDisabled t := by
  have hrow := tenantIsDisabled_update db
    (p := fun u => decide (u.tenantId = tenantId ∧ u.disabledAt ≠ none))
    (f := fun u => { u with disabledAt := none }) (fun _ => rfl) t
  unfold enableTenant
  dsimp only
  rw [hrow]
  unfold tenantIsDisabled
  cases hfind : db.tenant.find? fun u => u.tenantId = t with
  | none => simp
  | some row =>
    have hid : row.tenantId = t := by simpa using List.find?_some hfind
    by_cases ht : t = tenantId
    · cases hd : row.disabledAt <;> simp [hid, ht, hd]
    · simp [hid, ht]

/-- A switch that applied decides, every other write leaves a tenant as it was. -/
def switched (write : AdminWrite) (applied : Bool) (t : String) (before : Bool) : Bool :=
  (if applied then write.switches t else none).elim before (!·)

/-- **What one write does** to whether a tenant is disabled. -/
theorem applyAdmin_disabled (h : db.applyAdmin ring write = some (db', applied)) (t : String) :
    db'.tenantIsDisabled t = switched write applied t (db.tenantIsDisabled t) := by
  have same : write.switches t = none → db'.tenantIsDisabled t = db.tenantIsDisabled t →
      db'.tenantIsDisabled t = switched write applied t (db.tenantIsDisabled t) := by
    intro hw hd
    rw [hd, switched, hw, ite_self]
    rfl
  cases write with
  | insertApiKey keyId name keyHash createdBy now =>
    obtain ⟨db₁, hd, he⟩ := Option.map_eq_some_iff.1 h
    cases he
    unfold insertApiKey at hd
    split_ifs at hd
    obtain ⟨_, -, rfl⟩ := Option.map_eq_some_iff.1 hd
    exact same rfl rfl
  | insertSigningKey key now =>
    obtain ⟨db₁, hd, he⟩ := Option.map_eq_some_iff.1 h
    cases he
    obtain ⟨_, -, rfl⟩ := Option.map_eq_some_iff.1 hd
    exact same rfl rfl
  | rotateSigningKey key now activateAt retireAt =>
    obtain ⟨db₁, hd, he⟩ := Option.map_eq_some_iff.1 h
    cases he
    obtain ⟨_, -, rfl⟩ := Option.map_eq_some_iff.1 hd
    exact same rfl rfl
  | insertTenant tenantId displayName now =>
    obtain ⟨rfl, -⟩ := Prod.mk.inj (Option.some.inj h)
    exact same rfl (insertTenant_disabled ..)
  | disableTenant tenantId now =>
    have he : db.disableTenant tenantId now = (db', applied) := Option.some.inj h
    obtain rfl := congrArg Prod.fst he
    obtain rfl := congrArg Prod.snd he
    rw [disableTenant_disabled, switched]
    by_cases ht : t = tenantId
    · subst ht
      cases (db.disableTenant t now).2 <;> simp [AdminWrite.switches]
    · cases (db.disableTenant tenantId now).2 <;> simp [AdminWrite.switches, ht, Ne.symm ht]
  | enableTenant tenantId =>
    have he : db.enableTenant tenantId = (db', applied) := Option.some.inj h
    obtain rfl := congrArg Prod.fst he
    obtain rfl := congrArg Prod.snd he
    cases happlied : (db.enableTenant tenantId).2 with
    | false =>
      have hkeep : (db.enableTenant tenantId).1.tenant = db.tenant := updateWhere_of_none happlied
      rw [tenantIsDisabled, hkeep]
      rfl
    | true =>
      rw [enableTenant_disabled, switched]
      by_cases ht : t = tenantId
      · simp [AdminWrite.switches, ht]
      · simp [AdminWrite.switches, ht, Ne.symm ht]
  | insertPrincipal p now =>
    have ht := insertTenant_disabled db p.tenantId none now t
    unfold applyAdmin insertPrincipal at h
    dsimp only at h
    split_ifs at h
    · cases h
      exact same rfl ht
    · cases h
      exact same rfl ht
    · obtain ⟨db₁, hb, he⟩ := Option.map_eq_some_iff.1 h
      cases he
      obtain ⟨rows, -, hsecret⟩ := Option.bind_eq_some_iff.1 hb
      rw [insertSecret_eq hsecret] at same ⊢
      exact same rfl ht
  | addPrincipalSecret principalId secret expireOthersAt now =>
    unfold applyAdmin addPrincipalSecret at h
    dsimp only at h
    split_ifs at h
    · obtain ⟨db₁, hd, he⟩ := Option.map_eq_some_iff.1 h
      cases he
      rw [insertSecret_eq hd] at same ⊢
      exact same rfl (by cases expireOthersAt <;> rfl)
    · cases h
      exact same rfl rfl
  | insertUserGrant g now =>
    have ht := insertTenant_disabled db g.tenantId none now t
    have h' := Option.some.inj h
    unfold insertUserGrant at h'
    dsimp only at h'
    split_ifs at h'
    all_goals
      cases h'
      exact same rfl ht
  | insertProvider p now =>
    have h' := Option.some.inj h
    unfold insertProvider at h'
    dsimp only at h'
    split_ifs at h'
    all_goals
      cases h'
      exact same rfl rfl
  | _ =>
    cases h
    exact same rfl rfl

end Db

/-! ## Runs -/

namespace Directory

variable {ring : KeyRing} {made : Timestamp}

/-- The rows are those that applied writes brought, and the tenants are as the
    last switch of each left them. -/
structure Kept (d : Directory) : Prop where
  integrity : d.db.Integrity
  secrets : d.db.principalSecret = Rows.rows AdminWrite.ontoSecret AdminWrite.secrets d.applied
  principals : d.db.principal = Rows.rows AdminWrite.ontoPrincipal AdminWrite.principals d.applied
  disabled : ∀ t, d.db.tenantIsDisabled t = true ↔
    (d.applied.filterMap (·.switches t)).getLast? = some false

theorem kept_fresh (made : Timestamp) : Kept ⟨Db.fresh made, []⟩ where
  integrity := Db.integrity_fresh made
  secrets := rfl
  principals := rfl
  disabled t := by
    by_cases ht : "default" = t
    · simp [Db.fresh, Db.tenantIsDisabled, ht]
    · simp [Db.fresh, Db.tenantIsDisabled, ht]

/-- **One write.** -/
theorem Kept.step {d : Directory} (h : d.Kept) (write : AdminWrite) : (d.step ring write).Kept := by
  unfold Directory.step
  cases ha : d.db.applyAdmin ring write with
  | none => exact h
  | some r =>
    obtain ⟨db, applied⟩ := r
    have hint := h.integrity.applyAdmin ha
    have hrows := Db.applyAdmin_onto ha
    have hdis := Db.applyAdmin_disabled ha
    cases applied with
    | false =>
      obtain ⟨hs, hp⟩ := hrows.2 rfl
      refine ⟨hint, hs.trans h.secrets, hp.trans h.principals, fun t => ?_⟩
      rw [hdis t, Db.switched]
      exact h.disabled t
    | true =>
      obtain ⟨hs, hp⟩ := hrows.1 rfl
      refine ⟨hint, ?_, ?_, fun t => ?_⟩
      · rw [hs, h.secrets]
        exact (Rows.rows_concat ..).symm
      · rw [hp, h.principals]
        exact (Rows.rows_concat ..).symm
      · have hlast : ((d.applied ++ [write]).filterMap (·.switches t)).getLast? =
            (write.switches t).or (d.applied.filterMap (·.switches t)).getLast? := by
          rw [List.filterMap_append, List.getLast?_append]
          cases hw : write.switches t <;> simp [hw]
        show db.tenantIsDisabled t = true ↔
          ((d.applied ++ [write]).filterMap (·.switches t)).getLast? = some false
        rw [hdis t, Db.switched, if_pos rfl, hlast]
        cases hw : write.switches t with
        | none => simpa using h.disabled t
        | some on => cases on <;> simp

theorem kept_run (ring : KeyRing) (made : Timestamp) (writes : List AdminWrite) :
    (directory ring made writes).Kept :=
  run_preserves (fun _ write h => h.step write) (kept_fresh made) writes

end Directory

end SessionBroker
