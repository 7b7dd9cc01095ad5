/-
  The migrations of the store at boot (`migrate` of `store/mod.rs`).

  A boot reads how far the file has come, and runs what is missing in one
  transaction.  The reading is not in the transaction, so that another boot, or
  an older binary, which knows fewer migrations, may come between the two.

  * `Statement.run`: what SQLite refuses of the statements, a name that is taken,
    a table or a column that is not there or is there already;
  * `File.At`: the file has the first migrations, each once;
  * `migrations_apply_once`: a file is always at some version, whatever boots.

  Types and constraints of columns are left out, and so is the row of a tenant
  but for its name.
-/
import SessionBroker.Lib.Run
import Mathlib.Data.List.Nodup
import Mathlib.Tactic.IntervalCases

namespace SessionBroker.Migrations

open Runs

/-! ## Statements -/

/-- The tables and the indexes: they share their names' space. -/
inductive Name where
  | custody | session | generation | txn | apiKey | audit | tenant | principal | principalSecret
  | userGrant | signingKey | identityProvider
  | genBySid | custodySched | apiKeyLive | auditByTime | auditByAction | auditBySubject | sessionDead
  | principalSecretLive | custodyProvider
deriving DecidableEq, Repr

inductive Statement where
  | createTable (name : Name) (columns : List String)
  | createIndex (name table : Name) (columns : List String)
  | addColumn (table : Name) (column : String)
  /-- Into `tenant`. -/
  | insertTenant (tenantId : String)
deriving DecidableEq, Repr

structure File where
  /-- The rows of `schema_version`, if there is one. -/
  versions : Option (List ℕ)
  tables : List (Name × List String)
  indexes : List Name
  tenants : List String
deriving DecidableEq, Repr

def File.taken (f : File) (name : Name) : Bool := name ∈ f.tables.map (·.1) ++ f.indexes

/-- A statement that fails is an error, and ends the transaction. -/
def Statement.run (f : File) : Statement → Option File
  | createTable name columns =>
    if f.taken name then none else some { f with tables := f.tables ++ [(name, columns)] }
  | createIndex name table columns =>
    match f.tables.lookup table with
    | none => none
    | some known =>
      if f.taken name || !columns.all (· ∈ known) then none else some { f with indexes := f.indexes ++ [name] }
  | addColumn table column =>
    match f.tables.lookup table with
    | none => none
    | some known =>
      if column ∈ known then none
      else some { f with tables := f.tables.map fun t => if t.1 = table then (t.1, t.2 ++ [column]) else t }
  | insertTenant tenantId =>
    if f.taken .tenant ∧ tenantId ∉ f.tenants then some { f with tenants := f.tenants ++ [tenantId] } else none

/-- `MIGRATIONS`. -/
def migrations : List (List Statement) :=
  [[.createTable .custody ["custody_id", "sub", "refresh_tok", "access_tok", "access_exp", "scope", "status",
        "next_refresh", "fail_count", "updated_at"],
      .createTable .session ["sid", "custody_id", "sub", "current_gen", "idle_exp", "absolute_exp", "status",
        "created_at", "meta"],
      .createTable .generation ["token_hash", "sid", "gen_no", "created_at", "active_until", "superseded_at"],
      .createIndex .genBySid .generation ["sid", "gen_no"],
      .createIndex .custodySched .custody ["next_refresh", "status"],
      .createTable .txn ["txn_id", "state", "nonce", "pkce_verifier", "return_to", "created_at"]],
    [.createTable .apiKey ["key_id", "name", "key_hash", "created_at", "created_by", "last_used_at", "revoked_at"],
      .createIndex .apiKeyLive .apiKey ["key_hash", "revoked_at"]],
    [.createTable .audit ["seq", "at", "action", "outcome", "actor_kind", "actor_id", "subject", "sid",
        "custody_id", "key_id", "reason", "client_ip_prefix", "detail"],
      .createIndex .auditByTime .audit ["at"],
      .createIndex .auditByAction .audit ["action", "at"],
      .createIndex .auditBySubject .audit ["subject", "at"]],
    [.addColumn .session "tombstoned_at",
      .createIndex .sessionDead .session ["tombstoned_at", "status"]],
    [.createTable .tenant ["tenant_id", "display_name", "created_at", "disabled_at"],
      .insertTenant "default",
      .createTable .principal ["principal_id", "tenant_id", "name", "kind", "scope", "indexes", "audience",
        "max_ttl_secs", "created_at", "created_by", "last_used_at", "revoked_at"],
      .createTable .principalSecret ["secret_id", "principal_id", "secret_hash", "created_at", "expires_at",
        "revoked_at"],
      .createIndex .principalSecretLive .principalSecret ["secret_hash", "revoked_at"],
      .createTable .userGrant ["sub", "tenant_id", "roles", "indexes", "created_at", "created_by", "revoked_at"],
      .createTable .signingKey ["kid", "public_key", "seed_sealed", "created_at", "activate_at", "retire_at",
        "removed_at"]],
    [.createTable .identityProvider ["id", "preset", "display_name", "issuer_url", "client_id",
        "client_secret_sealed", "scopes", "enabled", "created_at", "updated_at", "deleted_at"],
      .addColumn .custody "provider_id",
      .addColumn .session "provider_id",
      .createIndex .custodyProvider .custody ["provider_id", "sub"]]]

/-- `SCHEMA_VERSION`. -/
def schemaVersion : ℕ := 6

/-- The steps of the loop of `migrate` with their versions, in a binary that
    knows the first migrations only. -/
def missing (known current : ℕ) : List (List Statement × ℕ) :=
  ((migrations.take known).zipIdx 1).filter fun step => current < step.2

/-- The transaction of `migrate`: `none` is an error, and rolled back. -/
def transaction (known current : ℕ) (f : File) : Option File :=
  (missing known current).foldlM (fun f step => do
    let f ← step.1.foldlM Statement.run f
    return { f with versions := f.versions.map (· ++ [step.2]) }) f

/-! ## Boots -/

inductive Phase where
  | started
  /-- There is a `schema_version`. -/
  | prepared
  /-- The greatest version was this, and not enough. -/
  | read (current : ℕ)
  | ok
  | failed
  | crashed
deriving DecidableEq, Repr

/-- A boot of a binary that knows the first migrations. -/
structure Boot where
  known : ℕ
  phase : Phase
deriving DecidableEq, Repr

/-- One statement of a boot that SQLite does for it at once. -/
def Boot.advance (f : File) (b : Boot) : File × Boot :=
  match b.phase with
  | .started => ({ f with versions := some (f.versions.getD []) }, { b with phase := .prepared })
  | .prepared =>
    let current := (f.versions.getD []).foldl max 0
    (f, { b with phase := if b.known ≤ current then .ok else .read current })
  | .read current =>
    match transaction b.known current f with
    | some f => (f, { b with phase := .ok })
    | none => (f, { b with phase := .failed })
  | _ => (f, b)

/-- The file, and what has booted on it. -/
structure Host where
  file : File
  boots : List Boot
deriving DecidableEq, Repr

inductive Action where
  | boot (known : ℕ)
  | advance (i : ℕ)
  /-- The file stays locked for too long. -/
  | busy (i : ℕ)
  | crash (i : ℕ)
  /-- A broker that runs names a new tenant. -/
  | tenant (tenantId : String)
deriving DecidableEq, Repr

namespace Host

/-- A boot that has not ended gets this end. -/
def stop (s : Host) (i : ℕ) (phase : Phase) : Host :=
  match s.boots[i]? with
  | none => s
  | some b =>
    match b.phase with
    | .started | .prepared | .read _ => { s with boots := s.boots.set i { b with phase } }
    | _ => s

def step (s : Host) : Action → Host
  | .boot known => { s with boots := s.boots ++ [⟨known, .started⟩] }
  | .advance i =>
    match s.boots[i]? with
    | none => s
    | some b =>
      let (file, b) := b.advance s.file
      ⟨file, s.boots.set i b⟩
  | .busy i => s.stop i .failed
  | .crash i => s.stop i .crashed
  | .tenant tenantId =>
    match (Statement.insertTenant tenantId).run s.file with
    | none => s
    | some file => { s with file }

/-- A file that is not there yet. -/
def new : Host := ⟨⟨none, [], [], []⟩, []⟩

end Host

/-! ## Versions of a file -/

/-- A file with the first migrations, and no more tenants than they make. -/
def applied (v : ℕ) : File :=
  (transaction v 0 ⟨some [], [], [], []⟩).getD ⟨none, [], [], []⟩

/-- The file has the first `v` migrations, each once. -/
structure File.At (f : File) (v : ℕ) : Prop where
  le : v ≤ schemaVersion
  versions : f.versions.getD [] = List.range' 1 v
  tables : f.tables = (applied v).tables
  indexes : f.indexes = (applied v).indexes
  no_tenants : v < 5 → f.tenants = []
  tenants : 5 ≤ v → "default" ∈ f.tenants ∧ f.tenants.Nodup

theorem applied_versions : ∀ v ≤ schemaVersion, (applied v).versions = some (List.range' 1 v) := by
  decide

theorem applied_tenants : ∀ v ≤ schemaVersion, (applied v).tenants = if v < 5 then [] else ["default"] := by
  decide

theorem transaction_applied : ∀ v < 5, ∀ known ≤ schemaVersion, v < known →
    transaction known v (applied v) = some (applied known) := by
  decide

theorem transaction_last (tenants : List String) :
    transaction 6 5 { applied 5 with tenants } = some { applied 6 with tenants } := rfl

/-- Each migration starts with what a later file has already. -/
theorem run_stale {v current : ℕ} (hv : v ≤ schemaVersion) (h : current < v) (tenants : List String) :
    (migrations.getD current []).foldlM Statement.run { applied v with tenants } = none := by
  unfold schemaVersion at hv
  interval_cases v <;> interval_cases current <;> rfl

theorem head_missing : ∀ known ≤ schemaVersion, ∀ current < known,
    (missing known current).head? = some (migrations.getD current [], current + 1) := by
  decide

section
variable {f : File} {v known current : ℕ}

theorem File.At.eq_applied (h : f.At v) (hsome : f.versions.isSome) :
    f = { applied v with tenants := f.tenants } := by
  obtain ⟨versions, tables, indexes, tenants⟩ := f
  obtain ⟨rows, rfl⟩ := Option.isSome_iff_exists.1 hsome
  have hversions : rows = List.range' 1 v := h.versions
  rw [hversions, ← applied_versions v h.le, show tables = _ from h.tables, show indexes = _ from h.indexes]

/-- **On the version that was read**, the transaction commits. -/
theorem File.At.transaction_of_read (h : f.At v) (hsome : f.versions.isSome) (hlt : v < known)
    (hknown : known ≤ schemaVersion) :
    ∃ f', transaction known v f = some f' ∧ f'.At known ∧ f'.versions.isSome := by
  by_cases hv : v < 5
  · have htenants : (applied v).tenants = [] := (applied_tenants v h.le).trans (if_pos hv)
    have hf : f = applied v := by
      rw [h.eq_applied hsome, h.no_tenants hv, ← htenants]
    refine ⟨applied known, by rw [hf, transaction_applied v hv known hknown hlt], ⟨hknown, ?_, rfl, rfl, ?_, ?_⟩, ?_⟩
    · rw [applied_versions known hknown]
      rfl
    · intro hlt
      rw [applied_tenants known hknown, if_pos hlt]
    · intro hle
      rw [applied_tenants known hknown, if_neg (by omega)]
      simp
    · rw [applied_versions known hknown]
      rfl
  · unfold schemaVersion at hknown
    obtain rfl : v = 5 := by omega
    obtain rfl : known = 6 := by omega
    have hf := h.eq_applied hsome
    have hrun := transaction_last f.tenants
    rw [← hf] at hrun
    exact ⟨_, hrun, ⟨le_rfl, rfl, rfl, rfl, by omega, fun _ => h.tenants le_rfl⟩, rfl⟩

/-- **On a later one** it fails. -/
theorem File.At.transaction_stale (h : f.At v) (hsome : f.versions.isSome) (hlt : current < v)
    (hknown : known ≤ schemaVersion) (hread : current < known) : transaction known current f = none := by
  have hhead := head_missing known hknown current hread
  unfold transaction
  cases hmissing : missing known current with
  | nil =>
    rw [hmissing] at hhead
    cases hhead
  | cons step steps =>
    rw [hmissing] at hhead
    obtain rfl := Option.some.inj hhead
    rw [List.foldlM_cons, h.eq_applied hsome, run_stale h.le hlt]
    rfl

/-- A new tenant leaves the version as it is. -/
theorem File.At.insertTenant (h : f.At v) {tenantId : String} {f' : File}
    (hrun : (Statement.insertTenant tenantId).run f = some f') : f'.At v ∧ f'.versions = f.versions := by
  simp only [Statement.run] at hrun
  split_ifs at hrun with hcond
  obtain rfl := Option.some.inj hrun
  refine ⟨{ h with no_tenants := fun hv => ?_, tenants := fun hv => ⟨?_, ?_⟩ }, rfl⟩
  · -- there is no such table yet
    have htable : ∀ v < 5, ¬ (applied v).taken .tenant = true := by decide
    refine absurd ?_ (htable v hv)
    have htaken := hcond.1
    unfold File.taken at htaken ⊢
    rwa [h.tables, h.indexes] at htaken
  · exact List.mem_append_left _ (h.tenants hv).1
  · exact List.nodup_append_comm.2 (List.nodup_cons.2 ⟨hcond.2, (h.tenants hv).2⟩)

end

/-! ## Any order of boots -/

/-- What a boot knows of a file at this version. -/
def Boot.Knows (f : File) (v : ℕ) (b : Boot) : Prop :=
  match b.phase with
  | .started | .failed | .crashed => True
  | .prepared => f.versions.isSome
  | .read current => f.versions.isSome ∧ current ≤ v ∧ current < b.known
  | .ok => b.known ≤ v

/-- What holds of a host at a version of its file. -/
structure Kept (s : Host) (v : ℕ) : Prop where
  at_ : s.file.At v
  known : ∀ b ∈ s.boots, b.known ≤ schemaVersion
  knows : ∀ b ∈ s.boots, b.Knows s.file v
  made : 0 < v → s.file.versions.isSome ∧ ∃ b ∈ s.boots, b.phase = .ok ∧ b.known = v

section
variable {f f' : File} {v v' : ℕ} {b : Boot}

/-- A later version unsays nothing. -/
theorem Boot.Knows.mono (h : b.Knows f v) (hsome : f.versions.isSome → f'.versions.isSome) (hle : v ≤ v') :
    b.Knows f' v' := by
  obtain ⟨known, phase⟩ := b
  cases phase with
  | prepared => exact hsome h
  | read current => exact ⟨hsome h.1, h.2.1.trans hle, h.2.2⟩
  | ok => exact Nat.le_trans h hle
  | started | failed | crashed => trivial

theorem current_eq (h : f.At v) : (f.versions.getD []).foldl max 0 = v := by
  have hmax : ∀ v ≤ schemaVersion, (List.range' 1 v).foldl max 0 = v := by decide
  rw [h.versions, hmax v h.le]

/-- **One statement of a boot**: the file stays at its version, or comes to the
    one that the boot knows, which has then booted. -/
theorem advance_spec (h : f.At v) (hknown : b.known ≤ schemaVersion) (hb : b.Knows f v) :
    ∃ v', v ≤ v' ∧ (b.advance f).1.At v' ∧ (b.advance f).2.known = b.known ∧
      (b.advance f).2.Knows (b.advance f).1 v' ∧ (f.versions.isSome → (b.advance f).1.versions.isSome) ∧
      (v' ≠ v → (b.advance f).1.versions.isSome ∧ (b.advance f).2.phase = .ok ∧ b.known = v') ∧
      ((b.advance f).2.phase = .ok ∨ b.phase ≠ .ok) := by
  obtain ⟨known, phase⟩ := b
  cases phase with
  | started => exact ⟨v, le_rfl, { h with }, rfl, rfl, fun _ => rfl, fun hne => absurd rfl hne, Or.inr (by simp)⟩
  | prepared =>
    refine ⟨v, le_rfl, h, rfl, ?_, id, fun hne => absurd rfl hne, Or.inr (by simp)⟩
    unfold Boot.advance
    dsimp only
    rw [current_eq h]
    split_ifs with hle
    · exact hle
    · exact ⟨hb, le_rfl, not_le.1 hle⟩
  | read current =>
    obtain ⟨hsome, hle, hlt⟩ := hb
    unfold Boot.advance
    dsimp only at hlt hknown ⊢
    rcases hle.eq_or_lt with rfl | hstale
    · obtain ⟨f', hrun, hat, hsome'⟩ := h.transaction_of_read hsome hlt hknown
      rw [hrun]
      exact ⟨known, hlt.le, hat, rfl, le_rfl, fun _ => hsome', fun _ => ⟨hsome', rfl, rfl⟩, Or.inl rfl⟩
    · rw [h.transaction_stale hsome hstale hknown hlt]
      exact ⟨v, le_rfl, h, rfl, trivial, id, fun hne => absurd rfl hne, Or.inr (by simp)⟩
  | ok => exact ⟨v, le_rfl, h, rfl, hb, id, fun hne => absurd rfl hne, Or.inl rfl⟩
  | failed | crashed => exact ⟨v, le_rfl, h, rfl, hb, id, fun hne => absurd rfl hne, Or.inr (by simp)⟩

end

section
variable {s : Host} {v : ℕ}

/-- A boot that had ended well is still there after another's step. -/
theorem made_set {i : ℕ} {b b' : Boot} (hb : s.boots[i]? = some b) (hknown : b'.known = b.known)
    (hok : b'.phase = .ok ∨ b.phase ≠ .ok) (h : ∃ b ∈ s.boots, b.phase = .ok ∧ b.known = v) :
    ∃ b ∈ s.boots.set i b', b.phase = .ok ∧ b.known = v := by
  obtain ⟨c, hc, hphase, hv⟩ := h
  obtain ⟨j, hj⟩ := List.mem_iff_getElem?.1 hc
  by_cases hij : i = j
  · subst hij
    obtain rfl := Option.some.inj (hb.symm.trans hj)
    refine ⟨b', List.mem_set (List.getElem?_eq_some_iff.1 hb).1 _, ?_, hknown.trans hv⟩
    exact hok.resolve_right fun hne => hne hphase
  · exact ⟨c, List.mem_of_getElem? ((List.getElem?_set_ne hij).trans hj), hphase, hv⟩

theorem Kept.stop (h : Kept s v) (i : ℕ) {phase : Phase} (hphase : phase = .failed ∨ phase = .crashed) :
    Kept (s.stop i phase) v := by
  unfold Host.stop
  cases hi : s.boots[i]? with
  | none => exact h
  | some b =>
    have hmem := List.mem_of_getElem? hi
    have hset : b.phase ≠ .ok → Kept { s with boots := s.boots.set i { b with phase } } v := by
      intro hne
      refine ⟨h.at_, fun c hc => ?_, fun c hc => ?_, fun hpos => ⟨(h.made hpos).1, ?_⟩⟩
      · rcases List.mem_or_eq_of_mem_set hc with hc | rfl
        · exact h.known c hc
        · exact h.known b hmem
      · rcases List.mem_or_eq_of_mem_set hc with hc | rfl
        · exact h.knows c hc
        · rcases hphase with rfl | rfl <;> trivial
      · exact made_set hi rfl (Or.inr hne) (h.made hpos).2
    dsimp only
    split
    · rename_i heq
      exact hset (by rw [heq]; simp)
    · rename_i heq
      exact hset (by rw [heq]; simp)
    · rename_i heq
      exact hset (by rw [heq]; simp)
    · exact h

theorem Kept.advance (h : Kept s v) (i : ℕ) : ∃ v', v ≤ v' ∧ Kept (s.step (.advance i)) v' := by
  unfold Host.step
  dsimp only
  cases hi : s.boots[i]? with
  | none => exact ⟨v, le_rfl, h⟩
  | some b =>
    have hmem := List.mem_of_getElem? hi
    obtain ⟨v', hle, hat, hknown, hknows, hsome, hmoved, hok⟩ := advance_spec h.at_ (h.known b hmem) (h.knows b hmem)
    refine ⟨v', hle, hat, fun c hc => ?_, fun c hc => ?_, fun hpos => ?_⟩
    · rcases List.mem_or_eq_of_mem_set hc with hc | rfl
      · exact h.known c hc
      · exact hknown.trans_le (h.known b hmem)
    · rcases List.mem_or_eq_of_mem_set hc with hc | rfl
      · exact (h.knows c hc).mono hsome hle
      · exact hknows
    · by_cases hv : v' = v
      · subst hv
        exact ⟨hsome (h.made hpos).1, made_set hi hknown hok (h.made hpos).2⟩
      · obtain ⟨hsome', hphase, hv'⟩ := hmoved hv
        exact ⟨hsome', _, List.mem_set (List.getElem?_eq_some_iff.1 hi).1 _, hphase, hknown.trans hv'⟩

theorem Kept.step (h : Kept s v) {a : Action} (ha : ∀ known, a = .boot known → known ≤ schemaVersion) :
    ∃ v', v ≤ v' ∧ Kept (s.step a) v' := by
  cases a with
  | boot known =>
    refine ⟨v, le_rfl, h.at_, fun b hb => ?_, fun b hb => ?_, fun hpos => ⟨(h.made hpos).1, ?_⟩⟩
    · rcases List.mem_append.1 hb with hb | hb
      · exact h.known b hb
      · rw [List.mem_singleton.1 hb]
        exact ha known rfl
    · rcases List.mem_append.1 hb with hb | hb
      · exact h.knows b hb
      · rw [List.mem_singleton.1 hb]
        trivial
    · obtain ⟨b, hb, hok⟩ := (h.made hpos).2
      exact ⟨b, List.mem_append_left _ hb, hok⟩
  | advance i => exact h.advance i
  | busy i => exact ⟨v, le_rfl, h.stop i (Or.inl rfl)⟩
  | crash i => exact ⟨v, le_rfl, h.stop i (Or.inr rfl)⟩
  | tenant tenantId =>
    unfold Host.step
    dsimp only
    cases hrun : (Statement.insertTenant tenantId).run s.file with
    | none => exact ⟨v, le_rfl, h⟩
    | some file =>
      obtain ⟨hat, hversions⟩ := h.at_.insertTenant hrun
      refine ⟨v, le_rfl, hat, h.known, fun b hb => (h.knows b hb).mono (fun hsome => ?_) le_rfl, fun hpos => ?_⟩
      · rwa [hversions]
      · rw [hversions]
        exact h.made hpos

end

theorem kept_run (actions : List Action) (hknown : ∀ known, .boot known ∈ actions → known ≤ schemaVersion) :
    ∃ v, Kept (run Host.step .new actions) v := by
  induction actions using List.reverseRecOn with
  | nil => exact ⟨0, ⟨by decide, rfl, rfl, rfl, fun _ => rfl, by omega⟩, by simp [Host.new], by simp [Host.new], by omega⟩
  | append_singleton actions a ih =>
    rw [run_concat]
    obtain ⟨v, h⟩ := ih fun known hmem => hknown known (List.mem_append_left _ hmem)
    obtain ⟨v', -, h'⟩ := h.step (a := a) fun known ha => hknown known (by simp [ha])
    exact ⟨v', h'⟩

theorem step_last (f : File) (boots : List Boot) (b : Boot) :
    Host.step ⟨f, boots ++ [b]⟩ (.advance boots.length) = ⟨(b.advance f).1, boots ++ [(b.advance f).2]⟩ := by
  simp [Host.step, List.set_append_right]

/-- A boot that is left alone returns. -/
theorem boots_alone {s : Host} {v known : ℕ} (h : s.file.At v) (hle : known ≤ schemaVersion) :
    (run Host.step s [.boot known, .advance s.boots.length, .advance s.boots.length,
      .advance s.boots.length]).boots = s.boots ++ [⟨known, .ok⟩] := by
  obtain ⟨f, boots⟩ := s
  obtain ⟨f', hf'⟩ : ∃ f' : File, f' = { f with versions := some (f.versions.getD []) } := ⟨_, rfl⟩
  have hat : f'.At v := by
    rw [hf']
    exact { h with }
  have hsome : f'.versions.isSome := by rw [hf']; rfl
  have hrun : run Host.step ⟨f, boots⟩ [.boot known, .advance boots.length, .advance boots.length,
      .advance boots.length] =
      run Host.step ⟨f', boots ++ [⟨known, .prepared⟩]⟩ [.advance boots.length, .advance boots.length] := by
    change run Host.step (Host.step ⟨f, boots ++ [⟨known, .started⟩]⟩ (.advance boots.length)) _ = _
    rw [step_last, hf']
    rfl
  have hread : Boot.advance f' ⟨known, .prepared⟩ = (f', ⟨known, if known ≤ v then .ok else .read v⟩) := by
    simp only [Boot.advance, current_eq hat]
  have hsecond : run Host.step ⟨f', boots ++ [⟨known, .prepared⟩]⟩ [.advance boots.length, .advance boots.length] =
      Host.step ⟨f', boots ++ [⟨known, if known ≤ v then .ok else .read v⟩]⟩ (.advance boots.length) := by
    have htwo : run Host.step ⟨f', boots ++ [⟨known, .prepared⟩]⟩ [.advance boots.length, .advance boots.length] =
        Host.step (Host.step ⟨f', boots ++ [⟨known, .prepared⟩]⟩ (.advance boots.length)) (.advance boots.length) := rfl
    rw [htwo, step_last, hread]
  rw [hrun, hsecond, step_last]
  by_cases hdone : known ≤ v
  · rw [if_pos hdone]
    rfl
  · rw [if_neg hdone]
    obtain ⟨f'', hcommit, -⟩ := hat.transaction_of_read hsome (not_le.1 hdone) hle
    simp only [Boot.advance, hcommit]

/-- **The migrations apply once**, whatever boots, races, fails and crashes: the
    file is at the version of a binary that booted, with the statements and the
    rows of each migration up to it once and of none after it; a boot that
    returns finds what it knows; it fails on what it read only if the file has
    moved on, and changes nothing then; and one that is left alone returns. -/
theorem migrations_apply_once (actions : List Action)
    (hknown : ∀ known, .boot known ∈ actions → known ≤ schemaVersion) :
    let s := run Host.step .new actions
    ∃ v, s.file.At v ∧ (0 < v → ∃ b ∈ s.boots, b.phase = .ok ∧ b.known = v) ∧
      (∀ b ∈ s.boots, b.phase = .ok → b.known ≤ v) ∧
      (∀ i known current, s.boots[i]? = some ⟨known, .read current⟩ →
        if current = v then ((s.step (.advance i)).file.At known ∧
          (s.step (.advance i)).boots = s.boots.set i ⟨known, .ok⟩)
        else s.step (.advance i) = ⟨s.file, s.boots.set i ⟨known, .failed⟩⟩) ∧
      ∀ known ≤ schemaVersion, (run Host.step s [.boot known, .advance s.boots.length, .advance s.boots.length,
        .advance s.boots.length]).boots = s.boots ++ [⟨known, .ok⟩] := by
  intro s
  obtain ⟨v, h⟩ := kept_run actions hknown
  refine ⟨v, h.at_, fun hpos => (h.made hpos).2, fun b hb hok => ?_, fun i known current hi => ?_,
    fun known hle => ?_⟩
  · have hknows := h.knows b hb
    unfold Boot.Knows at hknows
    rwa [hok] at hknows
  · have hmem := List.mem_of_getElem? hi
    obtain ⟨hsome, hle, hlt⟩ := h.knows _ hmem
    have hbound := h.known _ hmem
    dsimp only at hlt hbound
    split_ifs with hread
    · subst hread
      obtain ⟨f', hrun, hat, -⟩ := h.at_.transaction_of_read hsome hlt hbound
      have hstep : s.step (.advance i) = ⟨f', s.boots.set i ⟨known, .ok⟩⟩ := by
        simp only [Host.step, hi, Boot.advance, s, hrun]
      rw [hstep]
      exact ⟨hat, rfl⟩
    · have hnone := h.at_.transaction_stale hsome (lt_of_le_of_ne hle hread) hbound hlt
      simp only [Host.step, hi, Boot.advance, s, hnone]
  · exact boots_alone h.at_ hle

/-- An older binary and two of this one, of which one reads before the other commits. -/
theorem migrations_apply_once_here :
    let s := run Host.step .new [.boot 4, .advance 0, .advance 0, .advance 0, .boot 6, .boot 6, .advance 1, .advance 1,
      .advance 2, .advance 2, .advance 1]
    ∃ v, s.file.At v ∧ s.boots[2]? = some ⟨6, .read 4⟩ ∧
      ((s.step (.advance 2)).file.At 6 ∨ s.step (.advance 2) = ⟨s.file, s.boots.set 2 ⟨6, .failed⟩⟩) := by
  intro s
  have hread : s.boots[2]? = some ⟨6, .read 4⟩ := by decide +kernel
  obtain ⟨v, hat, -, -, hrace, -⟩ := migrations_apply_once [.boot 4, .advance 0, .advance 0, .advance 0, .boot 6,
    .boot 6, .advance 1, .advance 1, .advance 2, .advance 2, .advance 1] (by simp [schemaVersion])
  refine ⟨v, hat, hread, ?_⟩
  have h := hrace 2 6 4 hread
  split_ifs at h
  · exact Or.inl h.1
  · exact Or.inr h

end SessionBroker.Migrations
