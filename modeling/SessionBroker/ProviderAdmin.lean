/-
  `/admin/providers` (`http/admin/providers.rs`): create, update and remove,
  cut where they read or write what others share.

  * A request is an `AdminStage`: what it waits to do next, and the job it has
    made of what it read.  Each function here is what it does between two
    reads of shared state;
  * a job remembers the cell of the entry its request read;
  * the refusals carry the source's status, word and text.  Audit rows are left
    out.
-/
import SessionBroker.Providers

namespace SessionBroker

/-! ## Refusals -/

/-- The body of a refusal; `failure` is there where discovery is the reason. -/
structure AdminRefusal where
  status : ℕ
  error : String
  failure : Option String
  detail : String
deriving DecidableEq, Repr

namespace AdminRefusal

/-- `bad`. -/
def bad (error detail : String) : AdminRefusal := ⟨400, error, none, detail⟩

/-- `discovery_refused`. -/
def discovery (failure : DiscoveryFailure) : AdminRefusal :=
  ⟨422, "discovery_failed", some failure.failure, failure.detail⟩

/-- `store_failed`. -/
def store : AdminRefusal := ⟨500, "store_error", none, "The store could not be read or written."⟩

def unknown : AdminRefusal := ⟨404, "unknown_provider", none, "No provider has that id."⟩

def readOnly : AdminRefusal := ⟨409, "read_only_provider", none,
  "The default provider comes from the config file and cannot be changed here."⟩

def exists_ : AdminRefusal := ⟨409, "provider_exists", none, "A provider already has this id."⟩

def reserved : AdminRefusal := ⟨409, "reserved_id", none, "default and test are reserved ids."⟩

def retired : AdminRefusal := ⟨409, "provider_id_retired", none,
  "People or grants already exist under this id for another issuer. Choose another id."⟩

def issuerLocked : AdminRefusal := ⟨409, "issuer_locked", none,
  "People or grants already exist under this provider, and they belong to its issuer. " ++
    "Add a new provider for the other issuer."⟩

end AdminRefusal

/-! ## Checks of the fields -/

/-- `is_slug`. -/
def isSlug (s : String) : Bool :=
  1 ≤ s.utf8ByteSize && s.utf8ByteSize ≤ 63 &&
    (s.toList.head?.any fun c => c.isLower || c.isDigit) &&
    s.toList.all fun c => c.isLower || c.isDigit || c == '-'

/-- `is_word`. -/
def isWord (s : String) : Bool :=
  s ≠ "" && s.utf8ByteSize ≤ 128 && !s.toList.any fun c => isWhiteSpace c || isControl c

/-- `clean_list`. -/
def cleanList (items : List String) : Option (List String) :=
  if items.all isWord then
    let out := items.foldl (fun out item => if item ∈ out then out else out ++ [item]) []
    if out ≠ [] ∧ out.length ≤ 64 then some out else none
  else none

/-- `PRESETS`. -/
def presets : List String := ["entra", "okta", "auth0", "google", "keycloak", "generic"]

/-- `RESERVED_IDS`. -/
def reservedIds : List String := [defaultProvider, "test"]

/-- `DEFAULT_SCOPES`. -/
def defaultScopes : List String := ["openid", "profile", "email", "offline_access"]

/-- A field that fails its check is refused. -/
def refuseUnless (good : Bool) (refusal : AdminRefusal) : Except AdminRefusal Unit :=
  if good then .ok () else .error refusal

def checkPreset (preset : String) : Except AdminRefusal Unit :=
  refuseUnless (preset ∈ presets) (.bad "invalid_preset"
    "preset is one of entra, okta, auth0, google, keycloak, generic.")

def checkDisplayName (name : String) : Except AdminRefusal Unit :=
  refuseUnless (trim name ≠ "" && name.utf8ByteSize ≤ 128 && !name.toList.any isControl)
    (.bad "invalid_display_name"
      "display_name is 1 to 128 characters with no control characters.")

def checkClientId (clientId : String) : Except AdminRefusal Unit :=
  refuseUnless (clientId ≠ "" && clientId.utf8ByteSize ≤ 512 && !clientId.toList.any isControl)
    (.bad "invalid_client_id" "client_id is 1 to 512 characters with no control characters.")

def checkSecret (secret : ClientSecret) : Except AdminRefusal Unit :=
  refuseUnless (secret.bytes ≠ [] && secret.bytes.length ≤ 4096 &&
      !secret.expose.toList.any isControl)
    (.bad "invalid_secret" ("client_secret is 1 to 4096 characters with no control characters. " ++
      "To keep the stored one, leave the field out."))

def checkIssuer (parseUrl : String → Except String Url) (issuer : String) :
    Except AdminRefusal Unit :=
  match checkIssuerUrl parseUrl issuer with
  | .ok () => .ok ()
  | .error failure => .error ⟨400, "invalid_issuer", some failure.failure, failure.detail⟩

def checkScopes (scopes : List String) : Except AdminRefusal (List String) :=
  match cleanList scopes with
  | some scopes =>
    if "openid" ∈ scopes then .ok scopes
    else .error (.bad "invalid_scopes"
      "scopes must be 1 to 64 distinct words with no spaces, and must include openid.")
  | none => .error (.bad "invalid_scopes"
      "scopes must be 1 to 64 distinct words with no spaces, and must include openid.")

/-! ## Requests -/

structure CreateRequest where
  id : String
  preset : String
  displayName : String
  issuerUrl : String
  clientId : String
  clientSecret : ClientSecret
  scopes : Option (List String)
  enabled : Option Bool
deriving DecidableEq

structure UpdateRequest where
  preset : Option String := none
  displayName : Option String := none
  issuerUrl : Option String := none
  clientId : Option String := none
  clientSecret : Option ClientSecret := none
  scopes : Option (List String) := none
  enabled : Option Bool := none
deriving DecidableEq

inductive ProviderRequest where
  | create (request : CreateRequest)
  | update (id : String) (request : UpdateRequest)
  | remove (id : String)
deriving DecidableEq

/-- The provider a request is about. -/
def ProviderRequest.id : ProviderRequest → String
  | create request => request.id
  | update id _ => id
  | remove id => id

/-- What a request has made of what it read: the settings it will install, and
    the client.  `seen` is the cell of the entry it read. -/
structure ProviderJob where
  request : ProviderRequest
  seen : Option ℕ
  current : Option ProviderSettings
  next : ProviderSettings
  client : Option OidcClient

/-- Where a request stands: what it is about to do. -/
inductive AdminStage where
  | idle
  | reading (request : ProviderRequest)
  | naming (job : ProviderJob)
  | connecting (job : ProviderJob)
  | writing (job : ProviderJob)
  | installing (job : ProviderJob)
  | answered (request : ProviderRequest) (answer : Except AdminRefusal ℕ)

/-! ## The steps -/

/-- `create_inner` up to its first read: the scopes it will ask for. -/
def CreateRequest.checked (parseUrl : String → Except String Url) (request : CreateRequest) :
    Except AdminRefusal (List String) := do
  refuseUnless (isSlug request.id) (.bad "invalid_id" ("An id is lower-case letters, digits and " ++
    "hyphens, starting with a letter or digit, at most 63 characters."))
  refuseUnless (request.id ∉ reservedIds) .reserved
  checkPreset request.preset
  checkDisplayName request.displayName
  checkIssuer parseUrl request.issuerUrl
  checkClientId request.clientId
  checkSecret request.clientSecret
  match request.scopes with
  | some scopes => checkScopes scopes
  | none => .ok defaultScopes

/-- The settings of a create, but for its times. -/
def CreateRequest.settings (request : CreateRequest) (scopes : List String) : ProviderSettings where
  id := request.id
  preset := request.preset
  displayName := request.displayName
  issuerUrl := request.issuerUrl
  clientId := request.clientId
  clientSecret := some request.clientSecret
  scopes
  enabled := request.enabled.getD true
  deleted := false
  readOnly := false
  createdAt := none
  updatedAt := none

/-- One optional field of an update, checked and set. -/
def setField {α : Type} (value : Option α) (check : α → Except AdminRefusal Unit)
    (set : α → ProviderSettings → ProviderSettings) (settings : ProviderSettings) :
    Except AdminRefusal ProviderSettings :=
  match value with
  | some v =>
    match check v with
    | .ok () => .ok (set v settings)
    | .error refusal => .error refusal
  | none => .ok settings

/-- The scopes of an update, checked and set. -/
def setScopes (scopes : Option (List String)) (settings : ProviderSettings) :
    Except AdminRefusal ProviderSettings :=
  match scopes with
  | some scopes =>
    match checkScopes scopes with
    | .ok scopes => .ok { settings with scopes }
    | .error refusal => .error refusal
  | none => .ok settings

/-- The settings `update_inner` makes of the ones it read. -/
def UpdateRequest.edit (parseUrl : String → Except String Url) (request : UpdateRequest)
    (current : ProviderSettings) : Except AdminRefusal ProviderSettings := do
  let next ← setField request.preset checkPreset (fun v s => { s with preset := v }) current
  let next ← setField request.displayName checkDisplayName
    (fun v s => { s with displayName := v }) next
  let next ← setField request.issuerUrl (checkIssuer parseUrl)
    (fun v s => { s with issuerUrl := v }) next
  let next ← setField request.clientId checkClientId (fun v s => { s with clientId := v }) next
  let next ← setField request.clientSecret checkSecret
    (fun v s => { s with clientSecret := some v }) next
  let next ← setScopes request.scopes next
  setField request.enabled (fun _ => .ok ()) (fun v s => { s with enabled := v }) next

/-- What `remove` makes of the settings it read. -/
def ProviderSettings.tombstone (settings : ProviderSettings) : ProviderSettings :=
  { settings with deleted := true, enabled := false, clientSecret := none }

/-- The request arrives. -/
def ProviderRequest.arrive (parseUrl : String → Except String Url) (request : ProviderRequest) :
    AdminStage :=
  match request with
  | create r =>
    match r.checked parseUrl with
    | .ok _ => .reading request
    | .error refusal => .answered request (.error refusal)
  | _ => .reading request

/-- The read of the registry, and what the handler makes of it. -/
def ProviderRequest.read (parseUrl : String → Except String Url) (request : ProviderRequest)
    (registry : ProviderRegistry) : AdminStage :=
  let entry := registry.get request.id
  let current := registry.settings request.id
  match request with
  | create r =>
    match r.checked parseUrl with
    | .error refusal => .answered request (.error refusal)
    | .ok scopes =>
      let job := ⟨request, entry.map (·.cell), current, r.settings scopes, none⟩
      match current with
      | some existing =>
        if ¬ existing.deleted then .answered request (.error .exists_)
        else if existing.issuerUrl ≠ r.issuerUrl then .answered request (.error .retired)
        else .connecting job
      | none => .naming job
  | update _ r =>
    match current.filter (!·.deleted) with
    | none => .answered request (.error .unknown)
    | some settings =>
      if settings.readOnly then .answered request (.error .readOnly)
      else match r.edit parseUrl settings with
        | .error refusal => .answered request (.error refusal)
        | .ok next =>
          let job := ⟨request, entry.map (·.cell), current, next, none⟩
          if next.issuerUrl ≠ settings.issuerUrl then .naming job else .connecting job
  | remove _ =>
    match current.filter (!·.deleted) with
    | none => .answered request (.error .unknown)
    | some settings =>
      if settings.readOnly then .answered request (.error .readOnly)
      else .writing ⟨request, entry.map (·.cell), current, settings.tombstone, none⟩

/-- The namespace of an id, as `substr(sub, 1, length(id) + 1) = id || '|'` tells
    it. -/
def InNamespace (id sub : String) : Prop :=
  sub.toList.take (id.toList.length + 1) = id.toList ++ ['|']

instance (id sub : String) : Decidable (InNamespace id sub) := by
  unfold InNamespace
  infer_instance

/-- `provider_namespace_in_use`. -/
def Db.providerNamespaceInUse (db : Db) (id : String) : Bool :=
  (db.custody.any fun c => c.providerId = id ∨ InNamespace id c.sub) ||
    db.userGrant.any fun g => InNamespace id g.sub

namespace ProviderJob

/-- `namespace_in_use`, and the refusal it may end in. -/
def readNamespace (job : ProviderJob) (db : Db) (fails : Bool) : AdminStage :=
  if fails then .answered job.request (.error .store)
  else if db.providerNamespaceInUse job.request.id then
    match job.request with
    | .create _ => .answered job.request (.error .retired)
    | _ => .answered job.request (.error .issuerLocked)
  else .connecting job

/-- Nothing the provider is reached with changes, and it was enabled. -/
def reusable (job : ProviderJob) : Bool :=
  job.current.any fun current =>
    job.next.issuerUrl = current.issuerUrl && job.next.clientId = current.clientId &&
      job.next.clientSecret = current.clientSecret && job.next.scopes = current.scopes &&
      current.enabled

/-- The await of discovery, where there is one.  A create reads the clock before
    it. -/
def connect (job : ProviderJob) (registry : ProviderRegistry) (now : Timestamp)
    (discovery : Discovery) : AdminStage :=
  match job.request with
  | .create _ =>
    let job := { job with
      next := { job.next with createdAt := some now.secs, updatedAt := some now.secs } }
    if job.next.enabled then
      match job.next.connect discovery with
      | .ok client => .writing { job with client := some client }
      | .error failure => .answered job.request (.error (.discovery failure))
    else .writing job
  | _ =>
    if job.next.enabled && !job.reusable then
      match job.next.connect discovery with
      | .ok client => .writing { job with client := some client }
      | .error failure => .answered job.request (.error (.discovery failure))
    else if job.reusable then .writing { job with client := registry.connectedClient job.request.id }
    else .writing job

/-- The write of a request at `now`; a create carries the time it read before. -/
def adminWrite (job : ProviderJob) (now : Timestamp) : AdminWrite :=
  match job.request with
  | .create r => .insertProvider ⟨r.id, job.next.preset, job.next.displayName, job.next.issuerUrl,
      job.next.clientId, r.clientSecret.bytes, job.next.scopes, job.next.enabled⟩
      ⟨job.next.createdAt.getD 0⟩
  | .update id r => .updateProvider ⟨id, job.next.preset, job.next.displayName, job.next.issuerUrl,
      job.next.clientId, r.clientSecret.map (·.bytes), job.next.scopes, job.next.enabled⟩ now
  | .remove id => .deleteProvider id now

/-- The settings once the write has been made: an update is dated by it. -/
def written (job : ProviderJob) (now : Timestamp) : ProviderJob :=
  match job.request with
  | .update _ _ => { job with next := { job.next with updatedAt := some now.secs } }
  | _ => job

/-- The refusal where the write had nothing to act on. -/
def unapplied (job : ProviderJob) : AdminRefusal :=
  match job.request with
  | .create _ => .exists_
  | _ => .unknown

/-- `apply`: the commit. -/
def write (ring : KeyRing) (job : ProviderJob) (db : Db) (now : Timestamp) (fails : Bool) :
    Db × AdminStage :=
  if fails then (db, .answered job.request (.error .store))
  else match db.applyAdmin ring (job.adminWrite now) with
    | some (db', true) => (db', .installing (job.written now))
    | some (_, false) => (db, .answered job.request (.error job.unapplied))
    | none => (db, .answered job.request (.error .store))

/-- The status of a success. -/
def success (job : ProviderJob) : ℕ :=
  match job.request with
  | .create _ => 201
  | .update _ _ => 200
  | .remove _ => 204

end ProviderJob

/-! ## What a job is made of -/

/-- The settings with the fields of an update set. -/
def UpdateRequest.apply (request : UpdateRequest) (settings : ProviderSettings) :
    ProviderSettings :=
  { settings with
      preset := request.preset.getD settings.preset
      displayName := request.displayName.getD settings.displayName
      issuerUrl := request.issuerUrl.getD settings.issuerUrl
      clientId := request.clientId.getD settings.clientId
      clientSecret := request.clientSecret.or settings.clientSecret
      scopes := (request.scopes.bind cleanList).getD settings.scopes
      enabled := request.enabled.getD settings.enabled }

theorem setField_ok {α : Type} {value : Option α} {check : α → Except AdminRefusal Unit}
    {set : α → ProviderSettings → ProviderSettings} {s s' : ProviderSettings}
    (h : setField value check set s = .ok s') : s' = value.elim s (set · s) := by
  unfold setField at h
  cases value with
  | none =>
    cases h
    rfl
  | some v =>
    simp only at h
    cases hc : check v with
    | ok u =>
      rw [hc] at h
      cases h
      rfl
    | error refusal =>
      rw [hc] at h
      cases h

theorem checkScopes_ok {scopes cleaned : List String} (h : checkScopes scopes = .ok cleaned) :
    cleanList scopes = some cleaned := by
  unfold checkScopes at h
  cases hc : cleanList scopes with
  | none =>
    rw [hc] at h
    cases h
  | some out =>
    rw [hc] at h
    simp only at h
    split_ifs at h
    cases h
    rfl

theorem setScopes_ok {scopes : Option (List String)} {s s' : ProviderSettings}
    (h : setScopes scopes s = .ok s') :
    s' = { s with scopes := (scopes.bind cleanList).getD s.scopes } := by
  unfold setScopes at h
  cases scopes with
  | none =>
    cases h
    rfl
  | some scopes =>
    simp only at h
    cases hc : checkScopes scopes with
    | error refusal =>
      rw [hc] at h
      cases h
    | ok cleaned =>
      rw [hc] at h
      cases h
      rw [Option.bind_some, checkScopes_ok hc]
      rfl

theorem bind_eq_ok {ε α β : Type} {x : Except ε α} {f : α → Except ε β} {b : β} :
    (x >>= f) = .ok b ↔ ∃ a, x = .ok a ∧ f a = .ok b := by
  cases x with
  | error e => simp [bind, Except.bind]
  | ok a => simp [bind, Except.bind]

/-- **An update sets its fields** and leaves the others as they were read. -/
theorem UpdateRequest.edit_eq {parseUrl : String → Except String Url} {request : UpdateRequest}
    {current next : ProviderSettings} (h : request.edit parseUrl current = .ok next) :
    next = request.apply current := by
  unfold edit at h
  rw [bind_eq_ok] at h
  obtain ⟨s₁, h₁, h⟩ := h
  rw [bind_eq_ok] at h
  obtain ⟨s₂, h₂, h⟩ := h
  rw [bind_eq_ok] at h
  obtain ⟨s₃, h₃, h⟩ := h
  rw [bind_eq_ok] at h
  obtain ⟨s₄, h₄, h⟩ := h
  rw [bind_eq_ok] at h
  obtain ⟨s₅, h₅, h⟩ := h
  rw [bind_eq_ok] at h
  obtain ⟨s₆, h₆, h₇⟩ := h
  have e₁ : s₁ = { current with preset := request.preset.getD current.preset } := by
    rw [setField_ok h₁]
    cases request.preset <;> rfl
  have e₂ : s₂ = { s₁ with displayName := request.displayName.getD s₁.displayName } := by
    rw [setField_ok h₂]
    cases request.displayName <;> rfl
  have e₃ : s₃ = { s₂ with issuerUrl := request.issuerUrl.getD s₂.issuerUrl } := by
    rw [setField_ok h₃]
    cases request.issuerUrl <;> rfl
  have e₄ : s₄ = { s₃ with clientId := request.clientId.getD s₃.clientId } := by
    rw [setField_ok h₄]
    cases request.clientId <;> rfl
  have e₅ : s₅ = { s₄ with clientSecret := request.clientSecret.or s₄.clientSecret } := by
    rw [setField_ok h₅]
    cases request.clientSecret <;> rfl
  have e₆ := setScopes_ok h₆
  have e₇ : next = { s₆ with enabled := request.enabled.getD s₆.enabled } := by
    rw [setField_ok h₇]
    cases request.enabled <;> rfl
  rw [e₇, e₆, e₅, e₄, e₃, e₂, e₁]
  rfl

/-- The job of a request that has one. -/
def AdminStage.job : AdminStage → Option ProviderJob
  | naming job | connecting job | writing job | installing job => some job
  | _ => none

/-- **A job does what its request asks** of the settings it read: its next
    settings are theirs, edited, but for the times. -/
def ProviderJob.Planned (parseUrl : String → Except String Url) (job : ProviderJob) : Prop :=
  match job.request with
  | .create r => (∃ scopes, r.checked parseUrl = .ok scopes ∧
        { job.next with createdAt := none, updatedAt := none } = r.settings scopes) ∧
      ∀ t ∈ job.current, t.deleted = true ∧ t.issuerUrl = r.issuerUrl
  | .update _ r => ∃ s, job.current = some s ∧ s.deleted = false ∧ s.readOnly = false ∧
      { job.next with updatedAt := s.updatedAt } = r.apply s
  | .remove _ => ∃ s, job.current = some s ∧ s.deleted = false ∧ s.readOnly = false ∧
      job.next = s.tombstone

/-- The job is about the entry that the registry has under its id. -/
structure ProviderJob.ReadFrom (job : ProviderJob) (registry : ProviderRegistry) : Prop where
  seen : job.seen = (registry.get job.request.id).map (·.cell)
  current : job.current = registry.settings job.request.id

section
variable {parseUrl : String → Except String Url} {registry : ProviderRegistry}
  {request : ProviderRequest} {job job' : ProviderJob} {now : Timestamp}

/-- **What a request makes of its read.** -/
theorem ProviderRequest.read_job (h : (request.read parseUrl registry).job = some job) :
    job.request = request ∧ job.client = none ∧ job.ReadFrom registry ∧ job.Planned parseUrl := by
  unfold read at h
  cases request with
  | create r =>
    simp only at h
    cases hck : r.checked parseUrl with
    | error refusal =>
      rw [hck] at h
      cases h
    | ok scopes =>
      rw [hck] at h
      simp only at h
      cases hcur : registry.settings (ProviderRequest.create r).id with
      | none =>
        rw [hcur] at h
        cases h
        exact ⟨rfl, rfl, ⟨rfl, hcur.symm⟩, ⟨scopes, hck, rfl⟩, fun t ht => by cases ht⟩
      | some existing =>
        rw [hcur] at h
        simp only at h
        by_cases hdel : existing.deleted = true
        · rw [if_neg (not_not.2 hdel)] at h
          by_cases hissuer : existing.issuerUrl = r.issuerUrl
          · rw [if_neg (not_not.2 hissuer)] at h
            cases h
            refine ⟨rfl, rfl, ⟨rfl, hcur.symm⟩, ⟨scopes, hck, rfl⟩, ?_⟩
            intro t ht
            cases ht
            exact ⟨hdel, hissuer⟩
          · rw [if_pos hissuer] at h
            cases h
        · rw [if_pos hdel] at h
          cases h
  | update id r =>
    simp only at h
    cases hcur : (registry.settings (ProviderRequest.update id r).id).filter (!·.deleted) with
    | none =>
      rw [hcur] at h
      cases h
    | some settings =>
      rw [hcur] at h
      obtain ⟨hcur, hdel⟩ := Option.filter_eq_some_iff.1 hcur
      simp only at h
      split_ifs at h with hro
      · cases h
      · cases hedit : r.edit parseUrl settings with
        | error refusal =>
          rw [hedit] at h
          cases h
        | ok next =>
          rw [hedit] at h
          simp only at h
          have hplan : { next with updatedAt := settings.updatedAt } = r.apply settings := by
            rw [UpdateRequest.edit_eq hedit]
            rfl
          have hjob : job = ⟨.update id r,
              (registry.get (ProviderRequest.update id r).id).map (·.cell),
              registry.settings (ProviderRequest.update id r).id, next, none⟩ := by
            split_ifs at h
            · cases h
              rfl
            · cases h
              rfl
          subst hjob
          exact ⟨rfl, rfl, ⟨rfl, rfl⟩, settings, hcur, by simpa using hdel, by simpa using hro, hplan⟩
  | remove id =>
    simp only at h
    cases hcur : (registry.settings (ProviderRequest.remove id).id).filter (!·.deleted) with
    | none =>
      rw [hcur] at h
      cases h
    | some settings =>
      rw [hcur] at h
      obtain ⟨hcur, hdel⟩ := Option.filter_eq_some_iff.1 hcur
      simp only at h
      split_ifs at h with hro
      · cases h
      · cases h
        exact ⟨rfl, rfl, ⟨rfl, rfl⟩, settings, hcur, by simpa using hdel, by simpa using hro, rfl⟩

theorem ProviderRequest.arrive_job : (request.arrive parseUrl).job = none := by
  unfold arrive
  cases request with
  | create r =>
    simp only
    split <;> rfl
  | _ => rfl

theorem ProviderJob.readNamespace_job {db : Db} {fails : Bool}
    (h : (job.readNamespace db fails).job = some job') : job' = job := by
  unfold readNamespace at h
  split_ifs at h
  · cases h
  · split at h <;> cases h
  · cases h
    rfl

/-- What a job keeps while it waits for discovery. -/
structure ProviderJob.Same (job job' : ProviderJob) : Prop where
  request : job'.request = job.request
  seen : job'.seen = job.seen
  current : job'.current = job.current
  id : job'.next.id = job.next.id
  issuerUrl : job'.next.issuerUrl = job.next.issuerUrl

/-- **What discovery adds to a job**: a client of its settings, or the one the
    registry has. -/
theorem ProviderJob.connect_job {discovery : Discovery}
    (h : (job.connect registry now discovery).job = some job') :
    job.Same job' ∧ (∀ parseUrl, job.Planned parseUrl → job'.Planned parseUrl) ∧
      (job'.client = job.client ∨ (∃ c, job'.client = some c ∧ c.Suits job'.next) ∨
        job'.client = registry.connectedClient job.request.id) := by
  obtain ⟨request, seen, current, next, client⟩ := job
  unfold connect at h
  cases request with
  | create r =>
    simp only at h
    split_ifs at h
    · split at h
      · rename_i client hc
        cases h
        exact ⟨⟨rfl, rfl, rfl, rfl, rfl⟩, fun _ hp => hp,
          Or.inr (Or.inl ⟨client, rfl, ProviderRegistry.connect_suits hc⟩)⟩
      · cases h
    · cases h
      exact ⟨⟨rfl, rfl, rfl, rfl, rfl⟩, fun _ hp => hp, Or.inl rfl⟩
  | update id r | remove id =>
    simp only at h
    split_ifs at h
    · split at h
      · rename_i client hc
        cases h
        exact ⟨⟨rfl, rfl, rfl, rfl, rfl⟩, fun _ hp => hp,
          Or.inr (Or.inl ⟨client, rfl, ProviderRegistry.connect_suits hc⟩)⟩
      · cases h
    · cases h
      exact ⟨⟨rfl, rfl, rfl, rfl, rfl⟩, fun _ hp => hp, Or.inr (Or.inr rfl)⟩
    · cases h
      exact ⟨⟨rfl, rfl, rfl, rfl, rfl⟩, fun _ hp => hp, Or.inl rfl⟩

theorem ProviderJob.written_planned (h : job.Planned parseUrl) :
    (job.written now).Planned parseUrl := by
  obtain ⟨request, seen, current, next, client⟩ := job
  cases request <;> exact h

theorem ProviderJob.written_same (job : ProviderJob) (now : Timestamp) :
    job.Same (job.written now) ∧ (job.written now).client = job.client := by
  obtain ⟨request, seen, current, next, client⟩ := job
  cases request <;> exact ⟨⟨rfl, rfl, rfl, rfl, rfl⟩, rfl⟩

/-- **A request goes on to install only what it has written.** -/
theorem ProviderJob.write_job {ring : KeyRing} {db : Db} {fails : Bool}
    (h : (job.write ring db now fails).2.job = some job') :
    job' = job.written now ∧ (job.write ring db now fails).2 = .installing job' ∧
      db.applyAdmin ring (job.adminWrite now) = some ((job.write ring db now fails).1, true) := by
  unfold write at h ⊢
  split_ifs at h ⊢
  · cases h
  · cases ha : db.applyAdmin ring (job.adminWrite now) with
    | none =>
      rw [ha] at h
      cases h
    | some applied =>
      obtain ⟨db', applied⟩ := applied
      rw [ha] at h
      cases applied with
      | true =>
        cases h
        exact ⟨rfl, rfl, rfl⟩
      | false => cases h

/-- A write that is not made leaves the store as it was. -/
theorem ProviderJob.write_db {ring : KeyRing} {db : Db} {fails : Bool}
    (h : (job.write ring db now fails).2.job = none) : (job.write ring db now fails).1 = db := by
  unfold write at h ⊢
  split_ifs at h ⊢
  · rfl
  · cases ha : db.applyAdmin ring (job.adminWrite now) with
    | none => rfl
    | some applied =>
      obtain ⟨db', applied⟩ := applied
      rw [ha] at h
      cases applied with
      | true => cases h
      | false => rfl

end

end SessionBroker
