/-
  What a user holds, over histories of admin writes.

  * `grantFor_directory`: the row of a user and a tenant is what the grants and
    revocations of the pair that applied made of it, one after the other;
  * `grants_iff`: a tenant is granted iff the last of them granted it and the
    last switch of the tenant did not disable it;
  * `NeverHeld`: a user without a row never had one.
-/
import SessionBroker.Secrets

namespace SessionBroker

open Table Runs Latest

/-! ## Rows -/

namespace Db

/-- The row of a user and a tenant, revoked or not. -/
def grantFor (db : Db) (sub tenantId : String) : Option UserGrantRow :=
  db.userGrant.find? fun g => (g.sub, g.tenantId) = (sub, tenantId)

/-- The user holds the tenant with these roles and indexes: a row that is not
    revoked says so, and the tenant is not disabled. -/
def Grants (db : Db) (sub tenantId : String) (roles indexes : List String) : Prop :=
  ∃ g ∈ db.userGrant, g.sub = sub ∧ g.tenantId = tenantId ∧ g.roles = roles ∧ g.indexes = indexes ∧
    g.revokedAt = none ∧ ¬db.tenantIsDisabled tenantId = true

end Db

namespace AdminWrite

/-- What a write makes of the row of a user and a tenant. -/
def ontoGrant (sub tenantId : String) (row : Option UserGrantRow) :
    AdminWrite → Option UserGrantRow
  | insertUserGrant g now => if (g.sub, g.tenantId) = (sub, tenantId) then
      some ⟨g.sub, g.tenantId, g.roles, g.indexes, now, g.createdBy, none⟩ else row
  | revokeUserGrant s t now => if (s, t) = (sub, tenantId) then
      row.map fun g => { g with revokedAt := some now } else row
  | _ => row

/-- What a write says of a user and a tenant: granted with roles and indexes, or
    revoked. -/
def grants (sub tenantId : String) : AdminWrite → Option (Option (List String × List String))
  | insertUserGrant g _ =>
    if (g.sub, g.tenantId) = (sub, tenantId) then some (some (g.roles, g.indexes)) else none
  | revokeUserGrant s t _ => if (s, t) = (sub, tenantId) then some none else none
  | _ => none

end AdminWrite

/-! ## One write -/

namespace Db

variable {ring : KeyRing} {db db' : Db} {write : AdminWrite} {applied : Bool} {sub tenantId : String}

theorem Integrity.grantFor_eq (h : db.Integrity) {g : UserGrantRow} (hg : g ∈ db.userGrant) :
    db.grantFor g.sub g.tenantId = some g :=
  UniqueOn.find?_eq h.grantKey hg

theorem grantFor_some {g : UserGrantRow} (h : db.grantFor sub tenantId = some g) :
    g ∈ db.userGrant ∧ g.sub = sub ∧ g.tenantId = tenantId := by
  have hk := List.find?_some h
  simp only [Prod.mk.injEq, decide_eq_true_eq] at hk
  exact ⟨List.mem_of_find?_eq_some h, hk.1, hk.2⟩

/-- The row of a pair after an update that leaves pairs alone. -/
theorem grantFor_update (db : Db) {p : UserGrantRow → Bool} {f : UserGrantRow → UserGrantRow}
    (hf : ∀ g, (f g).sub = g.sub ∧ (f g).tenantId = g.tenantId) (sub tenantId : String) :
    grantFor { db with userGrant := updateWhere p f db.userGrant } sub tenantId =
      (db.grantFor sub tenantId).map fun g => if p g then f g else g := by
  let key (g : UserGrantRow) := (g.sub, g.tenantId)
  have hkey : ∀ g, key (f g) = key g := fun g => Prod.ext (hf g).1 (hf g).2
  exact find?_updateWhere hkey db.userGrant (sub, tenantId)

theorem grantFor_untouched (db : Db) {p : UserGrantRow → Bool} {f : UserGrantRow → UserGrantRow}
    (hp : ∀ g : UserGrantRow, g.sub = sub → g.tenantId = tenantId → p g = false) :
    ((db.grantFor sub tenantId).map fun g => if p g then f g else g) = db.grantFor sub tenantId := by
  cases hg : db.grantFor sub tenantId with
  | none => rfl
  | some g =>
    obtain ⟨-, hs, ht⟩ := grantFor_some hg
    simp [hp g hs ht]

/-- The writes that are about neither grants nor their revocation. -/
theorem applyAdmin_userGrant (h : db.applyAdmin ring write = some (db', applied))
    (hg : ∀ g now, write ≠ .insertUserGrant g now)
    (hr : ∀ s t now, write ≠ .revokeUserGrant s t now) : db'.userGrant = db.userGrant := by
  cases write with
  | insertApiKey keyId name keyHash createdBy now =>
    obtain ⟨db₁, hd, he⟩ := Option.map_eq_some_iff.1 h
    cases he
    unfold insertApiKey at hd
    split_ifs at hd
    obtain ⟨_, -, rfl⟩ := Option.map_eq_some_iff.1 hd
    rfl
  | insertSigningKey key now =>
    obtain ⟨db₁, hd, he⟩ := Option.map_eq_some_iff.1 h
    cases he
    obtain ⟨_, -, rfl⟩ := Option.map_eq_some_iff.1 hd
    rfl
  | rotateSigningKey key now activateAt retireAt =>
    obtain ⟨db₁, hd, he⟩ := Option.map_eq_some_iff.1 h
    cases he
    obtain ⟨_, -, rfl⟩ := Option.map_eq_some_iff.1 hd
    rfl
  | insertTenant t displayName now =>
    obtain ⟨rfl, -⟩ := Prod.mk.inj (Option.some.inj h)
    exact (insertTenant_principal db t displayName now).2.2
  | insertPrincipal p now =>
    have hsame := (insertTenant_principal db p.tenantId none now).2.2
    unfold applyAdmin insertPrincipal at h
    dsimp only at h
    split_ifs at h
    · cases h
      exact hsame
    · cases h
      exact hsame
    · obtain ⟨db₁, hb, he⟩ := Option.map_eq_some_iff.1 h
      cases he
      obtain ⟨rows, -, hsecret⟩ := Option.bind_eq_some_iff.1 hb
      rw [insertSecret_eq hsecret]
      exact hsame
  | addPrincipalSecret principalId secret expireOthersAt now =>
    unfold applyAdmin addPrincipalSecret at h
    dsimp only at h
    split_ifs at h
    · obtain ⟨db₁, hd, he⟩ := Option.map_eq_some_iff.1 h
      cases he
      rw [insertSecret_eq hd]
      cases expireOthersAt <;> rfl
    · cases h
      rfl
  | insertUserGrant g now => exact absurd rfl (hg g now)
  | revokeUserGrant s t now => exact absurd rfl (hr s t now)
  | insertProvider p now =>
    have h' := Option.some.inj h
    unfold insertProvider at h'
    dsimp only at h'
    split_ifs at h'
    all_goals
      cases h'
      rfl
  | _ =>
    cases h
    rfl

/-- **What one write does** to the row of a user and a tenant. -/
theorem Integrity.applyAdmin_grantFor (hi : db.Integrity)
    (h : db.applyAdmin ring write = some (db', applied)) (sub tenantId : String) :
    db'.grantFor sub tenantId = if applied then write.ontoGrant sub tenantId (db.grantFor sub tenantId)
      else db.grantFor sub tenantId := by
  have same : db'.userGrant = db.userGrant →
      (∀ row, write.ontoGrant sub tenantId row = row) → db'.grantFor sub tenantId = if applied then
        write.ontoGrant sub tenantId (db.grantFor sub tenantId) else db.grantFor sub tenantId := by
    intro hrows honto
    rw [honto, ite_self, grantFor, hrows]
    rfl
  cases write with
  | insertUserGrant g now =>
    obtain ⟨-, -, hrows⟩ := insertTenant_principal db g.tenantId none now
    have hkey : UniqueOn (fun g => (g.sub, g.tenantId)) (db.insertTenant g.tenantId none now).1.userGrant :=
      hrows ▸ hi.grantKey
    have h' := Option.some.inj h
    unfold Db.insertUserGrant at h'
    dsimp only [Db.ensureTenant] at h'
    have hbefore : db.grantFor sub tenantId =
        (db.insertTenant g.tenantId none now).1.grantFor sub tenantId := by rw [grantFor, ← hrows]; rfl
    rw [hbefore]
    generalize (db.insertTenant g.tenantId none now).1 = made at h' hkey
    split_ifs at h' with hoff hmine
    · cases h'
      rfl
    · -- the pair has a row: it is brought back to life, or nothing happens
      obtain ⟨rfl, rfl⟩ := Prod.mk.inj h'
      cases hrev : made.userGrant.any fun r =>
          decide (r.sub = g.sub ∧ r.tenantId = g.tenantId) && r.revokedAt.isSome with
      | false => exact congrArg (List.find? _) (updateWhere_of_none hrev)
      | true =>
        refine (grantFor_update made (f := fun r : UserGrantRow => { r with
            roles := g.roles
            indexes := g.indexes
            createdAt := now
            createdBy := g.createdBy
            revokedAt := none }) (fun _ => ⟨rfl, rfl⟩) sub tenantId).trans ?_
        obtain ⟨r, hr, hrow⟩ := List.any_eq_true.1 hrev
        simp only [Bool.and_eq_true, decide_eq_true_eq] at hrow
        obtain ⟨⟨hs, ht⟩, hrevoked⟩ := hrow
        by_cases hpair : (g.sub, g.tenantId) = (sub, tenantId)
        · obtain ⟨rfl, rfl⟩ := Prod.mk.inj hpair
          rw [← hs, ← ht, grantFor, UniqueOn.find?_eq hkey hr]
          simp [AdminWrite.ontoGrant, hs, ht, hrevoked]
        · rw [if_pos rfl, AdminWrite.ontoGrant, if_neg hpair]
          refine grantFor_untouched made fun r hs ht => ?_
          rw [← hs, ← ht, Prod.mk.injEq] at hpair
          simp only [Bool.and_eq_false_iff, decide_eq_false_iff_not]
          exact Or.inl fun h => hpair ⟨h.1.symm, h.2.symm⟩
    · obtain ⟨rfl, rfl⟩ := Prod.mk.inj h'
      have hnone : made.grantFor g.sub g.tenantId = none := by
        refine List.find?_eq_none.2 fun r hr hk => hmine (List.any_eq_true.2 ⟨r, hr, ?_⟩)
        simpa using hk
      rw [grantFor, List.find?_append, if_pos rfl]
      by_cases hpair : (g.sub, g.tenantId) = (sub, tenantId)
      · obtain ⟨rfl, rfl⟩ := Prod.mk.inj hpair
        rw [show made.userGrant.find? _ = none from hnone]
        simp [AdminWrite.ontoGrant]
      · rw [AdminWrite.ontoGrant, if_neg hpair, List.find?_cons_of_neg (by simpa using hpair)]
        exact Option.or_none
  | revokeUserGrant s t now =>
    obtain ⟨rfl, rfl⟩ := Prod.mk.inj (Option.some.inj h)
    cases hlive : db.userGrant.any fun r =>
        decide (r.sub = s ∧ r.tenantId = t ∧ r.revokedAt = none) with
    | false => exact congrArg (List.find? _) (updateWhere_of_none hlive)
    | true =>
      refine (grantFor_update db (f := fun r : UserGrantRow => { r with revokedAt := some now })
        (fun _ => ⟨rfl, rfl⟩) sub tenantId).trans ?_
      obtain ⟨r, hr, hrow⟩ := List.any_eq_true.1 hlive
      simp only [decide_eq_true_eq] at hrow
      obtain ⟨hs, ht, hnone⟩ := hrow
      by_cases hpair : (s, t) = (sub, tenantId)
      · obtain ⟨rfl, rfl⟩ := Prod.mk.inj hpair
        rw [← hs, ← ht, hi.grantFor_eq hr]
        simp [AdminWrite.ontoGrant, hnone]
      · rw [if_pos rfl, AdminWrite.ontoGrant, if_neg hpair]
        refine grantFor_untouched db fun r hs ht => ?_
        rw [← hs, ← ht, Prod.mk.injEq] at hpair
        exact decide_eq_false fun h => hpair ⟨h.1.symm, h.2.1.symm⟩
  | _ => exact same (applyAdmin_userGrant h (by simp) (by simp)) fun _ => rfl

/-- **What the listing of live grants has**: what the user holds. -/
theorem Integrity.mem_findLiveUserGrants (h : db.Integrity) {g : UserGrantRow}
    (hg : g ∈ db.findLiveUserGrants sub) : g.sub = sub ∧ db.Grants sub g.tenantId g.roles g.indexes := by
  rw [findLiveUserGrants, mem_newestFirst, List.mem_reverse, List.mem_filter, decide_eq_true_eq] at hg
  obtain ⟨hmem, hs, hlive, hany⟩ := hg
  exact ⟨hs, g, hmem, hs, rfl, rfl, rfl, hlive, (h.tenant_any (h.grantTenant g hmem)).1 hany⟩

theorem mem_listUserGrants {g : UserGrantRow} :
    g ∈ db.listUserGrants none (some sub) ↔ g ∈ db.userGrant ∧ g.sub = sub := by
  rw [listUserGrants, mem_newestFirst, List.mem_reverse, List.mem_filter]
  simp [eq_comm]

end Db

/-! ## Runs -/

section
variable {ring : KeyRing} {made : Timestamp} {sub tenantId : String}

theorem ontoGrant_live (write : AdminWrite) (row : Option UserGrantRow) :
    ((write.ontoGrant sub tenantId row).filter fun g => g.revokedAt.isNone).map
        (fun g => (g.roles, g.indexes)) =
      (write.grants sub tenantId).getD
        ((row.filter fun g => g.revokedAt.isNone).map fun g => (g.roles, g.indexes)) := by
  cases write with
  | insertUserGrant g now =>
    by_cases hpair : (g.sub, g.tenantId) = (sub, tenantId)
    · rw [AdminWrite.ontoGrant, AdminWrite.grants, if_pos hpair, if_pos hpair]
      rfl
    · rw [AdminWrite.ontoGrant, AdminWrite.grants, if_neg hpair, if_neg hpair]
      rfl
  | revokeUserGrant s t now =>
    by_cases hpair : (s, t) = (sub, tenantId)
    · rw [AdminWrite.ontoGrant, AdminWrite.grants, if_pos hpair, if_pos hpair]
      cases row <;> rfl
    · rw [AdminWrite.ontoGrant, AdminWrite.grants, if_neg hpair, if_neg hpair]
      rfl
  | _ => rfl

/-- The last grant or revocation decides. -/
theorem live_foldl (sub tenantId : String) (writes : List AdminWrite) :
    ((writes.foldl (fun row w => w.ontoGrant sub tenantId row) none).filter fun g =>
        g.revokedAt.isNone).map (fun g => (g.roles, g.indexes)) =
      (writes.filterMap (·.grants sub tenantId)).getLast?.join := by
  induction writes using List.reverseRecOn with
  | nil => rfl
  | append_singleton writes write ih =>
    rw [List.foldl_append, List.foldl_cons, List.foldl_nil, ontoGrant_live, ih, List.filterMap_append,
      List.getLast?_append]
    cases hw : write.grants sub tenantId <;> simp [hw]

/-- A write that applied is the last of the history and changes the row of a
    pair; any other leaves both. -/
theorem step_grantFor {d : Directory} (h : d.db.Integrity) (write : AdminWrite) (sub tenantId : String) :
    ((d.step ring write).applied = d.applied ∧
        (d.step ring write).db.grantFor sub tenantId = d.db.grantFor sub tenantId) ∨
      ((d.step ring write).applied = d.applied ++ [write] ∧
        (d.step ring write).db.grantFor sub tenantId =
          write.ontoGrant sub tenantId (d.db.grantFor sub tenantId)) := by
  unfold Directory.step
  cases ha : d.db.applyAdmin ring write with
  | none => exact Or.inl ⟨rfl, rfl⟩
  | some r =>
    obtain ⟨db, applied⟩ := r
    have hrow := h.applyAdmin_grantFor ha sub tenantId
    cases applied with
    | false => exact Or.inl ⟨rfl, hrow⟩
    | true => exact Or.inr ⟨rfl, hrow⟩

/-- **The row of a pair after any writes.** -/
theorem grantFor_directory (ring : KeyRing) (made : Timestamp) (writes : List AdminWrite)
    (sub tenantId : String) : (directory ring made writes).db.grantFor sub tenantId =
      (directory ring made writes).applied.foldl (fun row w => w.ontoGrant sub tenantId row) none := by
  induction writes using List.reverseRecOn with
  | nil => rfl
  | append_singleton writes write ih =>
    have hint := (Directory.kept_run ring made writes).integrity
    rw [directory_concat]
    rcases step_grantFor hint write sub tenantId with ⟨happlied, hrow⟩ | ⟨happlied, hrow⟩
    · exact hrow.trans (ih.trans (by rw [happlied]))
    · refine hrow.trans ?_
      rw [ih, happlied, List.foldl_append]
      rfl

/-- **What a user holds after any writes**: what the last grant or revocation of
    the tenant gave, unless the last switch disabled the tenant. -/
theorem grants_iff {writes : List AdminWrite} {roles indexes : List String} :
    (directory ring made writes).db.Grants sub tenantId roles indexes ↔
      ((directory ring made writes).applied.filterMap (·.grants sub tenantId)).getLast? =
          some (some (roles, indexes)) ∧
        ((directory ring made writes).applied.filterMap (·.switches tenantId)).getLast? ≠
          some false := by
  have hkept := Directory.kept_run ring made writes
  have hlive := live_foldl sub tenantId (directory ring made writes).applied
  rw [← grantFor_directory ring made writes] at hlive
  rw [Ne, ← hkept.disabled tenantId]
  constructor
  · rintro ⟨g, hg, rfl, rfl, rfl, rfl, hnone, hon⟩
    rw [hkept.integrity.grantFor_eq hg, Option.filter_some, if_pos (by simp [hnone])] at hlive
    exact ⟨Option.join_eq_some_iff.1 hlive.symm, hon⟩
  · rintro ⟨hlast, hon⟩
    rw [hlast] at hlive
    obtain ⟨g, hg, hpair⟩ := Option.map_eq_some_iff.1 hlive
    obtain ⟨hrow, hnone⟩ := Option.filter_eq_some_iff.1 hg
    obtain ⟨hmem, hs, ht⟩ := Db.grantFor_some hrow
    obtain ⟨rfl, rfl⟩ := Prod.mk.inj hpair
    exact ⟨g, hmem, hs, ht, rfl, rfl, by simpa using hnone, hon⟩

/-- The table has held no row of the user, at no moment of the history. -/
def NeverHeld (ring : KeyRing) (made : Timestamp) (writes : List AdminWrite) (sub : String) : Prop :=
  ∀ earlier, earlier <+: writes → ∀ g ∈ (directory ring made earlier).db.userGrant, g.sub ≠ sub

theorem ontoGrant_isSome {row : Option UserGrantRow} (write : AdminWrite) (h : row.isSome) :
    (write.ontoGrant sub tenantId row).isSome := by
  cases write with
  | insertUserGrant g now =>
    rw [AdminWrite.ontoGrant]
    split_ifs
    · rfl
    · exact h
  | revokeUserGrant s t now =>
    rw [AdminWrite.ontoGrant]
    split_ifs
    · simpa using h
    · exact h
  | _ => exact h

theorem grantFor_stays (writes later : List AdminWrite)
    (h : ((directory ring made writes).db.grantFor sub tenantId).isSome) :
    ((directory ring made (writes ++ later)).db.grantFor sub tenantId).isSome := by
  induction later using List.reverseRecOn with
  | nil => rwa [List.append_nil]
  | append_singleton later write ih =>
    have hint := (Directory.kept_run ring made (writes ++ later)).integrity
    rw [← List.append_assoc, directory_concat]
    rcases step_grantFor hint write sub tenantId with ⟨-, hrow⟩ | ⟨-, hrow⟩
    · exact hrow ▸ ih
    · exact hrow ▸ ontoGrant_isSome write ih

/-- **A user without a row never had one**: no write deletes a grant. -/
theorem neverHeld_iff {writes : List AdminWrite} : NeverHeld ring made writes sub ↔
    ∀ g ∈ (directory ring made writes).db.userGrant, g.sub ≠ sub := by
  constructor
  · intro h
    exact h writes (List.prefix_refl _)
  · rintro h earlier ⟨later, rfl⟩ g hg rfl
    have hrow := (Directory.kept_run ring made earlier).integrity.grantFor_eq hg
    obtain ⟨g', hg'⟩ := Option.isSome_iff_exists.1
      (grantFor_stays earlier later (by rw [hrow]; rfl))
    obtain ⟨hmem, hs, -⟩ := Db.grantFor_some hg'
    exact h g' hmem hs

end

end SessionBroker
