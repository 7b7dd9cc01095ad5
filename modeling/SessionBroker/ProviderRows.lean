/-
  The rows of `identity_provider`, and what an admin request does to them.

  * `SetsProvider`: a write that applied sets the row of one provider.  It leaves
    the settings of its job in it (`write_agrees`), where the job was made of
    what the row says;
  * a removal dates its row and not the settings it installs, so a tombstone
    agrees `undated`;
  * `ProviderField` and `ProviderRequest.sets` say what a request asks for, and
    `lastSet` what the last of them asked.
-/
import SessionBroker.ProviderAdmin

namespace SessionBroker

open Table

/-! ## Rows -/

/-- The row of a provider. -/
def Db.findProvider (db : Db) (id : String) : Option ProviderRecord :=
  db.identityProvider.find? fun r => r.id = id

/-- The settings a boot would make of it. -/
def Db.providerSettings (ring : KeyRing) (db : Db) (id : String) : Option ProviderSettings :=
  (db.findProvider id).map (·.settings ring)

/-- A write sets the row of one provider. -/
structure Db.SetsProvider (db db' : Db) (id : String) (row : ProviderRecord) : Prop where
  key : UniqueOn (·.id) db'.identityProvider
  row : db'.findProvider id = some row
  others : ∀ id' ≠ id, db'.findProvider id' = db.findProvider id'

section
variable {ring : KeyRing} {db db' : Db} {now : Timestamp}

theorem findProvider_id {id : String} {row : ProviderRecord} (h : db.findProvider id = some row) :
    row.id = id := by
  simpa using List.find?_some h

/-- An `UPDATE` that finds the row of the provider. -/
theorem setsProvider_update {id : String} {p : ProviderRecord → Bool}
    {f : ProviderRecord → ProviderRecord} (hkey : UniqueOn (·.id) db.identityProvider)
    (hdb : db'.identityProvider = updateWhere p f db.identityProvider)
    (hany : db.identityProvider.any p = true) (hp : ∀ r, p r = true → r.id = id)
    (hf : ∀ r, (f r).id = r.id) :
    ∃ row, db.findProvider id = some row ∧ p row = true ∧ db.SetsProvider db' id (f row) := by
  obtain ⟨row, hrow, hpr⟩ := List.any_eq_true.1 hany
  have hfind : db.findProvider id = some row := by
    rw [← hp row hpr]
    exact hkey.find?_eq hrow
  refine ⟨row, hfind, hpr, ?_, ?_, ?_⟩
  · rw [hdb]
    exact hkey.updateWhere hf
  · unfold Db.findProvider at hfind ⊢
    rw [hdb, find?_updateWhere hf, hfind, Option.map_some, if_pos hpr]
  · intro id' hne
    unfold Db.findProvider
    rw [hdb, find?_updateWhere hf]
    cases hr : db.identityProvider.find? fun r => r.id = id' with
    | none => rfl
    | some r =>
      have hid : r.id = id' := findProvider_id hr
      rw [Option.map_some, if_neg fun hpr => hne (hid.symm.trans (hp r hpr))]

/-- **A create** writes the whole row. -/
theorem insertProvider_row {p : NewProvider} (hkey : UniqueOn (·.id) db.identityProvider)
    (h : db.insertProvider ring p now = (db', true)) :
    db.SetsProvider db' p.id ⟨p.id, p.preset, p.displayName, p.issuerUrl, p.clientId,
      ring.seal p.clientSecret (providerSecretContext p.id), p.scopes, p.enabled, now, now,
      none⟩ := by
  unfold Db.insertProvider at h
  dsimp only at h
  split_ifs at h with htaken
  · obtain ⟨hdb, hany⟩ := Prod.mk.inj h
    obtain ⟨row, -, hrow, hsets⟩ := setsProvider_update hkey
      (congrArg Db.identityProvider hdb.symm) hany (fun r hr => (of_decide_eq_true hr).1)
      fun _ => rfl
    obtain ⟨hid, -, hissuer⟩ := of_decide_eq_true hrow
    rw [← hid] at hsets ⊢
    rw [← hissuer]
    exact hsets
  · obtain ⟨rfl, -⟩ := Prod.mk.inj h
    have hnew : ∀ r ∈ db.identityProvider, r.id ≠ p.id := fun r hr hid =>
      htaken (List.any_eq_true.2 ⟨r, hr, decide_eq_true hid⟩)
    refine ⟨hkey.append hnew, ?_, ?_⟩
    · unfold Db.findProvider
      rw [List.find?_append, List.find?_eq_none.2 fun r hr => by simpa using hnew r hr]
      simp
    · intro id' hne
      unfold Db.findProvider
      rw [List.find?_append]
      simp [Ne.symm hne]

/-- **An update** writes its fields, and the secret only if it brings one. -/
theorem updateProvider_row {p : ProviderUpdate} (hkey : UniqueOn (·.id) db.identityProvider)
    (h : db.updateProvider ring p now = (db', true)) :
    ∃ row, db.findProvider p.id = some row ∧ row.deletedAt = none ∧
      db.SetsProvider db' p.id { row with
        preset := p.preset
        displayName := p.displayName
        issuerUrl := p.issuerUrl
        clientId := p.clientId
        clientSecretSealed := (p.clientSecret.map fun secret =>
          ring.seal secret (providerSecretContext p.id)).getD row.clientSecretSealed
        scopes := p.scopes
        enabled := p.enabled
        updatedAt := now } := by
  obtain ⟨hdb, hany⟩ := Prod.mk.inj h
  obtain ⟨row, hfind, hrow, hsets⟩ := setsProvider_update hkey
    (congrArg Db.identityProvider hdb.symm) hany (fun r hr => (of_decide_eq_true hr).1)
    fun _ => rfl
  exact ⟨row, hfind, (of_decide_eq_true hrow).2, hsets⟩

/-- **A removal** leaves a tombstone. -/
theorem deleteProvider_row {id : String} (hkey : UniqueOn (·.id) db.identityProvider)
    (h : db.deleteProvider id now = (db', true)) :
    ∃ row, db.findProvider id = some row ∧ row.deletedAt = none ∧
      db.SetsProvider db' id { row with
        deletedAt := some now
        updatedAt := now
        enabled := false
        clientSecretSealed := .empty } := by
  obtain ⟨hdb, hany⟩ := Prod.mk.inj h
  obtain ⟨row, hfind, hrow, hsets⟩ := setsProvider_update hkey
    (congrArg Db.identityProvider hdb.symm) hany (fun r hr => (of_decide_eq_true hr).1)
    fun _ => rfl
  exact ⟨row, hfind, (of_decide_eq_true hrow).2, hsets⟩

/-- A secret that was sealed opens. -/
theorem clientSecret_seal (hring : ring.active ∈ ring.keys) (secret : ClientSecret)
    {row : ProviderRecord} (hlive : row.deletedAt = none)
    (hsealed : row.clientSecretSealed = ring.seal secret.bytes (providerSecretContext row.id)) :
    row.clientSecret ring = some secret := by
  unfold ProviderRecord.clientSecret
  rw [if_pos hlive, hsealed, open_seal hring, Option.bind_some, dif_pos secret.utf8]

end

/-! ## A job and its row -/

/-- Settings, but for the date of a tombstone. -/
def ProviderSettings.undated (settings : ProviderSettings) : ProviderSettings :=
  if settings.deleted then { settings with updatedAt := none } else settings

/-- The same settings, but for the date of a tombstone; and that too, where the
    removals are `dated`. -/
structure Agree (dated : Prop) (a b : Option ProviderSettings) : Prop where
  undated : a.map (·.undated) = b.map (·.undated)
  same : dated → a = b

/-- A removal leaves the date of the settings, and writes this one. -/
def ProviderJob.Punctual (job : ProviderJob) (now : Timestamp) : Prop :=
  match job.request with
  | .remove _ => job.next.updatedAt = some now.secs
  | _ => True

/-- A create that is about to write has its two times. -/
def ProviderJob.Dated (job : ProviderJob) : Prop :=
  ∀ r, job.request = .create r →
    ∃ t, job.next.createdAt = some t ∧ job.next.updatedAt = some t

section
variable {dated : Prop} {a b : Option ProviderSettings} {settings : ProviderSettings}

theorem undated_of_live (h : settings.deleted = false) : settings.undated = settings := by
  unfold ProviderSettings.undated
  rw [h]
  rfl

@[simp] theorem undated_deleted : settings.undated.deleted = settings.deleted := by
  unfold ProviderSettings.undated
  split <;> rfl

theorem Agree.of_eq (h : a = b) : Agree dated a b := ⟨congrArg _ h, fun _ => h⟩

/-- Live settings agree with themselves only. -/
theorem Agree.live (h : Agree dated (some settings) b) (hlive : settings.deleted = false) :
    b = some settings := by
  obtain ⟨hund, -⟩ := h
  cases b with
  | none => cases hund
  | some t =>
    have heq : settings.undated = t.undated := Option.some.inj hund
    have ht : t.deleted = false := by
      rw [← undated_deleted, ← heq, undated_deleted]
      exact hlive
    rw [undated_of_live hlive, undated_of_live ht] at heq
    rw [heq]

end

section
variable {parseUrl : String → Except String Url} {ring : KeyRing} {db db' : Db} {job : ProviderJob}
  {now : Timestamp} {dated : Prop}

/-- A write that applied sets the row of the provider it is about. -/
theorem ProviderJob.write_sets (hkey : UniqueOn (·.id) db.identityProvider)
    (h : db.applyAdmin ring (job.adminWrite now) = some (db', true)) :
    ∃ row, db.SetsProvider db' job.request.id row := by
  unfold adminWrite at h
  cases hreq : job.request with
  | create r =>
    rw [hreq] at h
    exact ⟨_, insertProvider_row hkey (Option.some.inj h)⟩
  | update id r =>
    rw [hreq] at h
    obtain ⟨row, -, -, hsets⟩ := updateProvider_row hkey (Option.some.inj h)
    exact ⟨_, hsets⟩
  | remove id =>
    rw [hreq] at h
    obtain ⟨row, -, -, hsets⟩ := deleteProvider_row hkey (Option.some.inj h)
    exact ⟨_, hsets⟩

/-- The row of live settings is what they were read from. -/
theorem Agree.row {settings : ProviderSettings} {id : String} {row : ProviderRecord}
    (h : Agree dated (some settings) (db.providerSettings ring id))
    (hlive : settings.deleted = false) (hfind : db.findProvider id = some row) :
    row.settings ring = settings := by
  have hrow := h.live hlive
  unfold Db.providerSettings at hrow
  rw [hfind] at hrow
  exact Option.some.inj hrow

/-- **A write leaves the settings of its job in the row.** -/
theorem ProviderJob.write_agrees (hring : ring.active ∈ ring.keys)
    (hkey : UniqueOn (·.id) db.identityProvider) (hplan : job.Planned parseUrl)
    (hdates : job.Dated) (hpunctual : dated → job.Punctual now)
    (hcurrent : Agree dated job.current (db.providerSettings ring job.request.id))
    (h : db.applyAdmin ring (job.adminWrite now) = some (db', true)) :
    ∃ row, db.SetsProvider db' job.request.id row ∧
      Agree dated (some (job.written now).next) (some (row.settings ring)) := by
  obtain ⟨request, seen, current, next, client⟩ := job
  cases request with
  | create r =>
    obtain ⟨⟨scopes, -, hnext⟩, -⟩ := hplan
    obtain ⟨t, hcreated, hupdated⟩ := hdates r rfl
    have hnext : next = { r.settings scopes with createdAt := some t, updatedAt := some t } := by
      rw [← hnext]
      cases next
      cases hcreated
      cases hupdated
      rfl
    subst hnext
    refine ⟨_, insertProvider_row hkey (Option.some.inj h), Agree.of_eq ?_⟩
    unfold ProviderRecord.settings
    rw [clientSecret_seal hring r.clientSecret rfl rfl]
    rfl
  | update id r =>
    obtain ⟨s, rfl, hlive, hro, hnext⟩ := hplan
    obtain ⟨row, hfind, hrow, hsets⟩ := updateProvider_row hkey (Option.some.inj h)
    refine ⟨_, hsets, Agree.of_eq ?_⟩
    obtain rfl := hcurrent.row hlive hfind
    obtain ⟨date, rfl⟩ : ∃ date, next = { r.apply (row.settings ring) with updatedAt := date } :=
      ⟨next.updatedAt, by rw [← hnext]⟩
    obtain rfl : row.id = id := findProvider_id hfind
    refine congrArg some (ProviderSettings.ext rfl rfl rfl rfl rfl ?_ rfl rfl rfl rfl rfl rfl)
    cases hsecret : r.clientSecret with
    | none => simp [ProviderJob.written, UpdateRequest.apply, hsecret, ProviderRecord.settings,
        ProviderRecord.clientSecret]
    | some secret =>
      refine Eq.trans ?_ (clientSecret_seal hring secret ?_ ?_).symm
      · simp [ProviderJob.written, UpdateRequest.apply, hsecret]
      · exact hrow
      · simp
  | remove id =>
    obtain ⟨s, rfl, hlive, hro, hnext⟩ := hplan
    obtain ⟨row, hfind, hrow, hsets⟩ := deleteProvider_row hkey (Option.some.inj h)
    refine ⟨_, hsets, ?_⟩
    obtain rfl := hcurrent.row hlive hfind
    change next = _ at hnext
    subst hnext
    constructor
    · rfl
    · intro hd
      have hdate : (row.settings ring).updatedAt = some now.secs := hpunctual hd
      show some { (row.settings ring).tombstone with updatedAt := (row.settings ring).updatedAt } = _
      rw [hdate]
      rfl

end

/-! ## What a request asks for -/

inductive ProviderField where
  | preset
  | displayName
  | issuerUrl
  | clientId
  | clientSecret
  | scopes
  | enabled
deriving DecidableEq, Repr

inductive FieldValue where
  | text (text : String)
  | secret (secret : Option ClientSecret)
  | words (words : List String)
  | flag (flag : Bool)
deriving DecidableEq

def ProviderSettings.value (settings : ProviderSettings) : ProviderField → FieldValue
  | .preset => .text settings.preset
  | .displayName => .text settings.displayName
  | .issuerUrl => .text settings.issuerUrl
  | .clientId => .text settings.clientId
  | .clientSecret => .secret settings.clientSecret
  | .scopes => .words settings.scopes
  | .enabled => .flag settings.enabled

/-- A create sets every field; what it leaves out has a default. -/
def CreateRequest.sets (request : CreateRequest) : ProviderField → Option FieldValue
  | .preset => some (.text request.preset)
  | .displayName => some (.text request.displayName)
  | .issuerUrl => some (.text request.issuerUrl)
  | .clientId => some (.text request.clientId)
  | .clientSecret => some (.secret (some request.clientSecret))
  | .scopes => (request.scopes.elim (some defaultScopes) cleanList).map .words
  | .enabled => some (.flag (request.enabled.getD true))

def UpdateRequest.sets (request : UpdateRequest) : ProviderField → Option FieldValue
  | .preset => request.preset.map .text
  | .displayName => request.displayName.map .text
  | .issuerUrl => request.issuerUrl.map .text
  | .clientId => request.clientId.map .text
  | .clientSecret => request.clientSecret.map fun secret => .secret (some secret)
  | .scopes => (request.scopes.bind cleanList).map .words
  | .enabled => request.enabled.map .flag

/-- A removal disables the provider and destroys its secret. -/
def removalSets : ProviderField → Option FieldValue
  | .clientSecret => some (.secret none)
  | .enabled => some (.flag false)
  | _ => none

/-- The value a request gives a field. -/
def ProviderRequest.sets : ProviderRequest → ProviderField → Option FieldValue
  | create request => request.sets
  | update _ request => request.sets
  | remove _ => removalSets

/-- The value that the last of the requests on the id gave the field. -/
def lastSet (applied : List ProviderRequest) (id : String) (field : ProviderField) :
    Option FieldValue :=
  (applied.filterMap fun request =>
    if request.id = id then request.sets field else none).getLast?

theorem lastSet_append (applied : List ProviderRequest) (request : ProviderRequest) (id : String)
    (field : ProviderField) : lastSet (applied ++ [request]) id field =
      (if request.id = id then request.sets field else none).or (lastSet applied id field) := by
  unfold lastSet
  rw [List.filterMap_append, List.getLast?_append]
  congr 1
  cases hset : (if request.id = id then request.sets field else none) with
  | none => simp [hset]
  | some value => simp [hset]

/-- A request that was applied is not forgotten. -/
theorem lastSet_isSome {applied : List ProviderRequest} {request : ProviderRequest}
    {field : ProviderField} (hmem : request ∈ applied) (hset : (request.sets field).isSome) :
    (lastSet applied request.id field).isSome := by
  unfold lastSet
  obtain ⟨value, hvalue⟩ := Option.isSome_iff_exists.1 hset
  have hin : value ∈ applied.filterMap fun r =>
      if r.id = request.id then r.sets field else none :=
    List.mem_filterMap.2 ⟨request, hmem, by rw [if_pos rfl, hvalue]⟩
  rw [List.getLast?_isSome]
  exact List.ne_nil_of_mem hin

section
variable {parseUrl : String → Except String Url} {job : ProviderJob}

theorem CreateRequest.checked_scopes {r : CreateRequest} {scopes : List String}
    (h : r.checked parseUrl = .ok scopes) :
    r.scopes.elim (some defaultScopes) cleanList = some scopes := by
  unfold checked at h
  rw [bind_eq_ok] at h
  obtain ⟨_, -, h⟩ := h
  rw [bind_eq_ok] at h
  obtain ⟨_, -, h⟩ := h
  rw [bind_eq_ok] at h
  obtain ⟨_, -, h⟩ := h
  rw [bind_eq_ok] at h
  obtain ⟨_, -, h⟩ := h
  rw [bind_eq_ok] at h
  obtain ⟨_, -, h⟩ := h
  rw [bind_eq_ok] at h
  obtain ⟨_, -, h⟩ := h
  rw [bind_eq_ok] at h
  obtain ⟨_, -, h⟩ := h
  cases hscopes : r.scopes with
  | none =>
    rw [hscopes] at h
    cases h
    rfl
  | some words =>
    rw [hscopes] at h
    exact checkScopes_ok h

/-- **A job gives each field what its request asks**, or leaves it as it read
    it. -/
theorem ProviderJob.Planned.value (h : job.Planned parseUrl) (field : ProviderField) :
    job.request.sets field = some (job.next.value field) ∨
      job.request.sets field = none ∧
        ∃ s, job.current = some s ∧ job.next.value field = s.value field := by
  obtain ⟨request, seen, current, next, client⟩ := job
  cases request with
  | create r =>
    obtain ⟨⟨scopes, hck, hnext⟩, -⟩ := h
    refine Or.inl ?_
    have hvalue : next.value field = (r.settings scopes).value field := by
      rw [← hnext]
      cases field <;> rfl
    show r.sets field = some (next.value field)
    rw [hvalue]
    cases field with
    | scopes =>
      show (r.scopes.elim (some defaultScopes) cleanList).map FieldValue.words = _
      rw [CreateRequest.checked_scopes hck]
      rfl
    | _ => rfl
  | update id r =>
    obtain ⟨s, hcur, -, -, hnext⟩ := h
    have hvalue : next.value field = (r.apply s).value field := by
      rw [← hnext]
      cases field <;> rfl
    show r.sets field = some (next.value field) ∨ r.sets field = none ∧
      ∃ s, current = some s ∧ next.value field = s.value field
    rw [hvalue]
    cases hset : r.sets field with
    | none =>
      refine Or.inr ⟨rfl, s, hcur, ?_⟩
      cases field <;>
        simp only [UpdateRequest.sets, Option.map_eq_none_iff] at hset <;>
        simp [UpdateRequest.apply, ProviderSettings.value, hset]
    | some value =>
      refine Or.inl ?_
      cases field <;>
        simp only [UpdateRequest.sets, Option.map_eq_some_iff] at hset <;>
        obtain ⟨v, hv, rfl⟩ := hset <;>
        simp [UpdateRequest.apply, ProviderSettings.value, hv]
  | remove id =>
    obtain ⟨s, hcur, -, -, hnext⟩ := h
    cases hnext
    cases field with
    | clientSecret | enabled => exact Or.inl rfl
    | _ => exact Or.inr ⟨rfl, s, hcur, rfl⟩

end

end SessionBroker
