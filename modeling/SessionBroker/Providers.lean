/-
  The identity providers (`providers.rs`) and the login transactions
  (`TxnStore` of `oauth.rs`).

  * Parsing a URL is a parameter, and what discovery finds is part of the step
    that awaits it;
  * an entry of the registry is shared, and replaced, never changed, but for the
    cell of its client: `Entry.cell` names the cell, so two entries with one
    cell are one entry;
  * of a client only what tells people apart is kept: the provider it belongs
    to, its issuer, and whether it can exchange a code.
-/
import SessionBroker.Admin
import SessionBroker.Lib.Lookup
import SessionBroker.Text

namespace SessionBroker

/-! ## Issuers -/

/-- `DiscoveryFailure`. -/
structure DiscoveryFailure where
  failure : String
  detail : String
deriving DecidableEq, Repr

/-- `url::Host`. -/
inductive UrlHost where
  | domain (name : String)
  | ipv4 (address : BitVec 32)
  | ipv6 (address : BitVec 128)
deriving DecidableEq, Repr

/-- `url::Url`, as far as the checks read it. -/
structure Url where
  scheme : String
  username : String
  password : Option String
  host : Option UrlHost
  query : Option String
  fragment : Option String
deriving DecidableEq, Repr

/-- `is_loopback`. -/
def Url.isLoopback (url : Url) : Bool :=
  match url.host with
  | some (.domain name) => name.toList.map Char.toLower == "localhost".toList
  | some (.ipv4 address) => address.toNat / 2 ^ 24 == 127
  | some (.ipv6 address) => address == 1
  | none => false

/-- `check_transport`. -/
def checkTransport (raw : String) (url : Url) : Except DiscoveryFailure Unit :=
  if url.scheme = "https" ∨ (url.scheme = "http" ∧ url.isLoopback) then .ok ()
  else .error ⟨"issuer_not_https", raw ++ " must be https, or http on loopback"⟩

/-- `check_issuer_url`. -/
def checkIssuerUrl (parseUrl : String → Except String Url) (issuer : String) :
    Except DiscoveryFailure Unit :=
  match parseUrl issuer with
  | .error e => .error ⟨"invalid_url", e⟩
  | .ok url =>
    if url.host = none then .error ⟨"invalid_url", "an issuer needs a host"⟩
    else if url.username ≠ "" ∨ url.password ≠ none then
      .error ⟨"invalid_url", "an issuer carries no credentials"⟩
    else if url.query ≠ none ∨ url.fragment ≠ none then
      .error ⟨"invalid_url", "an issuer has no query or fragment (OIDC Discovery 1.0)"⟩
    else checkTransport issuer url

/-! ## Settings -/

/-- `ClientSecret`: the bytes of a string. -/
structure ClientSecret where
  bytes : Bytes
  utf8 : (fromUtf8 bytes).isSome
deriving DecidableEq

/-- The string itself. -/
def ClientSecret.expose (secret : ClientSecret) : String := (fromUtf8 secret.bytes).get secret.utf8

@[ext] structure ProviderSettings where
  id : String
  preset : String
  displayName : String
  issuerUrl : String
  clientId : String
  clientSecret : Option ClientSecret
  scopes : List String
  enabled : Bool
  deleted : Bool
  readOnly : Bool
  createdAt : Option ℤ
  updatedAt : Option ℤ
deriving DecidableEq

/-- The secret of a row, as `list_providers` opens it. -/
def ProviderRecord.clientSecret (ring : KeyRing) (row : ProviderRecord) : Option ClientSecret :=
  if row.deletedAt = none then
    (ring.open row.clientSecretSealed (providerSecretContext row.id)).bind fun plain =>
      if h : (fromUtf8 plain).isSome then some ⟨plain, h⟩ else none
  else none

/-- `ProviderSettings::from` on a row of `list_providers`. -/
def ProviderRecord.settings (ring : KeyRing) (row : ProviderRecord) : ProviderSettings where
  id := row.id
  preset := row.preset
  displayName := row.displayName
  issuerUrl := row.issuerUrl
  clientId := row.clientId
  clientSecret := row.clientSecret ring
  scopes := row.scopes
  enabled := row.enabled
  deleted := row.deletedAt.isSome
  readOnly := false
  createdAt := some row.createdAt.secs
  updatedAt := some row.updatedAt.secs

/-- `DEFAULT_PROVIDER`. -/
def defaultProvider : String := "default"

/-- `person_subject`. -/
def personSubject (providerId upstreamSub : String) : String :=
  if providerId = defaultProvider then upstreamSub else providerId ++ "|" ++ upstreamSub

/-- `OidcConfig`, where a config provider is configured. -/
structure OidcConfig where
  issuerUrl : String
  clientId : String
  clientSecret : ClientSecret
  scopes : List String
deriving DecidableEq

/-- The settings of the config provider. -/
def OidcConfig.settings (config : OidcConfig) : ProviderSettings where
  id := defaultProvider
  preset := "config"
  displayName := "Default"
  issuerUrl := config.issuerUrl
  clientId := config.clientId
  clientSecret := some config.clientSecret
  scopes := config.scopes
  enabled := true
  deleted := false
  readOnly := true
  createdAt := none
  updatedAt := none

/-! ## The registry -/

/-- `OidcClient`. -/
structure OidcClient where
  providerId : String
  issuer : String
  tokenEndpoint : Bool
deriving DecidableEq, Repr

/-- `Arc<Entry>`. -/
structure Entry where
  cell : ℕ
  settings : ProviderSettings
deriving DecidableEq

/-- `ProviderRegistry`.  `cells` are the settings of every entry there was, by
    its cell, and `client` is what the cells hold. -/
structure ProviderRegistry where
  entries : List (String × Entry)
  cells : List ProviderSettings
  client : ℕ → Option OidcClient

/-- What discovery answers: whether the document names a token endpoint. -/
abbrev Discovery := Except DiscoveryFailure Bool

/-- `ProviderRegistry::connect`. -/
def ProviderSettings.connect (settings : ProviderSettings) (discovery : Discovery) :
    Except DiscoveryFailure OidcClient :=
  if settings.clientSecret = none then
    .error ⟨"secret_unavailable", "the stored client secret could not be opened; set it again"⟩
  else match discovery with
    | .ok tokenEndpoint => .ok ⟨settings.id, settings.issuerUrl, tokenEndpoint⟩
    | .error failure => .error failure

/-- A client of the provider and the issuer of the settings. -/
def OidcClient.Suits (c : OidcClient) (settings : ProviderSettings) : Prop :=
  c.providerId = settings.id ∧ c.issuer = settings.issuerUrl

/-- `LoginRefusal`. -/
inductive LoginRefusal where
  | noProviders
  | required
  | unknown
  | disabled
  | unavailable (failure : DiscoveryFailure)
deriving DecidableEq, Repr

namespace ProviderRegistry

/-- `ProviderRegistry::empty`. -/
def empty : ProviderRegistry := ⟨[], [], fun _ => none⟩

/-- `BTreeMap::get`. -/
def get (r : ProviderRegistry) (id : String) : Option Entry := r.entries.lookup id

/-- `ProviderRegistry::install`: a new entry, with a cell of its own. -/
def install (r : ProviderRegistry) (settings : ProviderSettings) (client : Option OidcClient) :
    ProviderRegistry where
  entries := (settings.id, ⟨r.cells.length, settings⟩) ::
    r.entries.filter fun e => e.1 ≠ settings.id
  cells := r.cells ++ [settings]
  client := Function.update r.client r.cells.length client

/-- `ProviderRegistry::settings`. -/
def settings (r : ProviderRegistry) (id : String) : Option ProviderSettings :=
  (r.get id).map (·.settings)

/-- `ProviderRegistry::connected_client`. -/
def connectedClient (r : ProviderRegistry) (id : String) : Option OidcClient :=
  (r.get id).bind fun e => r.client e.cell

/-- `client_of`, once its await is over: the first client connected stays in the
    cell. -/
def clientOf (r : ProviderRegistry) (e : Entry) (discovery : Discovery) :
    Except DiscoveryFailure OidcClient × ProviderRegistry :=
  match r.client e.cell with
  | some client => (.ok client, r)
  | none =>
    match e.settings.connect discovery with
    | .ok client => (.ok client, { r with client := Function.update r.client e.cell (some client) })
    | .error failure => (.error failure, r)

/-- The entry `client_for_login` starts on. -/
def entryForLogin (r : ProviderRegistry) (requested : Option String) : Except LoginRefusal Entry :=
  match requested with
  | some id =>
    match (r.get id).filter (!·.settings.deleted) with
    | some entry => if entry.settings.enabled then .ok entry else .error .disabled
    | none => .error .unknown
  | none =>
    match r.entries.filter fun e => e.2.settings.enabled && !e.2.settings.deleted with
    | [] => .error .noProviders
    | [only] => .ok only.2
    | _ => .error .required

/-- `ProviderRegistry::subject_collides`. -/
def subjectCollides (r : ProviderRegistry) (sub : String) : Bool :=
  match splitOnce '|' sub with
  | some (name, _) => name ≠ defaultProvider && (r.get name).isSome
  | none => false

/-- `ProviderRegistry::boot`: the rows, then the config provider with its
    client. -/
def boot (rows : List ProviderSettings) (config : Option (OidcConfig × Bool)) : ProviderRegistry :=
  let registry := rows.foldl (fun r row => r.install row none) empty
  match config with
  | some (config, tokenEndpoint) => registry.install config.settings
      (some ⟨defaultProvider, config.issuerUrl, tokenEndpoint⟩)
  | none => registry

variable {r : ProviderRegistry} {id : String} {settings : ProviderSettings}
  {client : Option OidcClient}

/-- An install changes one id. -/
theorem get_install : (r.install settings client).get id =
    if id = settings.id then some ⟨r.cells.length, settings⟩ else r.get id := by
  unfold install get
  rw [List.lookup_cons]
  split_ifs with h
  · simp [h]
  · rw [beq_false_of_ne h]
    exact Lookup.lookup_filter_ne h

theorem get_install_of_ne (h : id ≠ settings.id) : (r.install settings client).get id = r.get id := by
  rw [get_install, if_neg h]

/-- Connecting a client moves no entry. -/
@[simp] theorem entries_clientOf {e : Entry} {discovery : Discovery} :
    (r.clientOf e discovery).2.entries = r.entries := by
  unfold clientOf
  split
  · rfl
  · split <;> rfl

@[simp] theorem get_clientOf {e : Entry} {discovery : Discovery} :
    (r.clientOf e discovery).2.get id = r.get id := by
  unfold get
  rw [entries_clientOf]

@[simp] theorem cells_clientOf {e : Entry} {discovery : Discovery} :
    (r.clientOf e discovery).2.cells = r.cells := by
  unfold clientOf
  split
  · rfl
  · split <;> rfl

/-! ## Where an entry stands -/

/-- The entry was made by the registry. -/
def Made (r : ProviderRegistry) (e : Entry) : Prop := r.cells[e.cell]? = some e.settings

/-- An id names an entry of its own. -/
def Listed (r : ProviderRegistry) : Prop := ∀ p ∈ r.entries, r.Made p.2 ∧ p.2.settings.id = p.1

/-- **The registry is sound**: its entries are listed, and a cell holds no client
    but of the settings it was made with. -/
structure Sound (r : ProviderRegistry) : Prop where
  listed : r.Listed
  suits : ∀ e c, r.Made e → r.client e.cell = some c → c.Suits e.settings

theorem mem_of_get {e : Entry} (h : r.get id = some e) : (id, e) ∈ r.entries := by
  obtain ⟨before, after, hentries, -⟩ := List.lookup_eq_some_iff.1 h
  rw [hentries]
  simp

theorem Listed.made (h : r.Listed) {id : String} {e : Entry} (he : r.get id = some e) :
    r.Made e ∧ e.settings.id = id := h (id, e) (mem_of_get he)

/-- The cell under an id tells its settings. -/
theorem Listed.settings_eq (h : r.Listed) (id : String) :
    r.settings id = ((r.get id).map (·.cell)).bind (r.cells[·]?) := by
  unfold settings
  cases hget : r.get id with
  | none => rfl
  | some e => exact (h.made hget).1.symm

theorem empty_sound : empty.Sound where
  listed := by simp [Listed, empty]
  suits := by simp [Made, empty]

theorem Made.install {e : Entry} (h : r.Made e) : (r.install settings client).Made e := by
  obtain ⟨hlt, -⟩ := List.getElem?_eq_some_iff.1 h
  show (r.cells ++ [settings])[e.cell]? = _
  rw [List.getElem?_append_left hlt]
  exact h

theorem Made.clientOf {e e' : Entry} {discovery : Discovery} (h : r.Made e) :
    (r.clientOf e' discovery).2.Made e := by
  unfold Made
  rw [cells_clientOf]
  exact h

theorem Listed.install (h : r.Listed) : (r.install settings client).Listed := by
  intro p hp
  rcases List.mem_cons.1 hp with rfl | hp
  · refine ⟨?_, rfl⟩
    show (r.cells ++ [settings])[r.cells.length]? = some settings
    rw [List.getElem?_append_right le_rfl, Nat.sub_self]
    rfl
  · obtain ⟨hmade, hid⟩ := h p (List.mem_of_mem_filter hp)
    exact ⟨hmade.install, hid⟩

theorem Listed.clientOf (h : r.Listed) {e : Entry} {discovery : Discovery} :
    (r.clientOf e discovery).2.Listed := by
  intro p hp
  rw [entries_clientOf] at hp
  exact ⟨(h p hp).1.clientOf, (h p hp).2⟩

theorem Sound.install (h : r.Sound) (hc : ∀ c ∈ client, c.Suits settings) :
    (r.install settings client).Sound where
  listed := h.listed.install
  suits := by
    intro e c hm hcl
    change (r.cells ++ [settings])[e.cell]? = _ at hm
    change Function.update r.client r.cells.length client e.cell = some c at hcl
    obtain ⟨hlt, -⟩ := List.getElem?_eq_some_iff.1 hm
    rw [List.length_append, List.length_singleton] at hlt
    by_cases hcell : e.cell = r.cells.length
    · rw [hcell, Function.update_self] at hcl
      rw [hcell, List.getElem?_append_right le_rfl, Nat.sub_self] at hm
      cases hm
      exact hc c hcl
    · rw [Function.update_of_ne hcell] at hcl
      rw [List.getElem?_append_left (by omega)] at hm
      exact h.suits e c hm hcl

/-- What discovery builds suits the settings it was built from. -/
theorem connect_suits {discovery : Discovery} {c : OidcClient}
    (h : settings.connect discovery = .ok c) : c.Suits settings := by
  unfold ProviderSettings.connect at h
  split_ifs at h
  cases discovery with
  | error failure => cases h
  | ok tokenEndpoint =>
    cases h
    exact ⟨rfl, rfl⟩

theorem clientOf_suits (h : r.Sound) {e : Entry} (he : r.Made e) {discovery : Discovery}
    {c : OidcClient} (hc : (r.clientOf e discovery).1 = .ok c) : c.Suits e.settings := by
  unfold clientOf at hc
  cases hcell : r.client e.cell with
  | some client =>
    rw [hcell] at hc
    cases hc
    exact h.suits e _ he hcell
  | none =>
    rw [hcell] at hc
    cases hcon : e.settings.connect discovery with
    | ok client =>
      rw [hcon] at hc
      cases hc
      exact connect_suits hcon
    | error failure =>
      rw [hcon] at hc
      cases hc

theorem Sound.clientOf (h : r.Sound) {e : Entry} (he : r.Made e) {discovery : Discovery} :
    (r.clientOf e discovery).2.Sound where
  listed := h.listed.clientOf
  suits := by
    intro e' c hm hcl
    have hm' : r.Made e' := by
      unfold Made at hm
      rwa [cells_clientOf] at hm
    unfold ProviderRegistry.clientOf at hcl
    cases hcell : r.client e.cell with
    | some client =>
      rw [hcell] at hcl
      exact h.suits e' c hm' hcl
    | none =>
      rw [hcell] at hcl
      cases hcon : e.settings.connect discovery with
      | error failure =>
        rw [hcon] at hcl
        exact h.suits e' c hm' hcl
      | ok client =>
        rw [hcon] at hcl
        change Function.update r.client e.cell (some client) e'.cell = some c at hcl
        by_cases hsame : e'.cell = e.cell
        · -- one cell, one entry
          rw [hsame, Function.update_self] at hcl
          have hset : e'.settings = e.settings := by
            unfold Made at hm' he
            rw [hsame, he] at hm'
            exact (Option.some.inj hm').symm
          cases hcl
          rw [hset]
          exact connect_suits hcon
        · rw [Function.update_of_ne hsame] at hcl
          exact h.suits e' c hm' hcl

/-- A login starts on an entry of the registry. -/
theorem entryForLogin_mem {requested : Option String} {e : Entry}
    (h : r.entryForLogin requested = .ok e) : ∃ id, (id, e) ∈ r.entries := by
  unfold entryForLogin at h
  cases requested with
  | some id =>
    simp only at h
    cases hget : (r.get id).filter (!·.settings.deleted) with
    | none =>
      rw [hget] at h
      cases h
    | some entry =>
      rw [hget] at h
      simp only at h
      split_ifs at h
      cases h
      exact ⟨id, mem_of_get (Option.filter_eq_some_iff.1 hget).1⟩
  | none =>
    simp only at h
    split at h
    · cases h
    · rename_i only honly
      cases h
      have hmem : only ∈ r.entries := List.mem_of_mem_filter (honly ▸ List.mem_singleton_self only)
      exact ⟨only.1, hmem⟩
    · cases h

/-- What the rows of the store put under an id. -/
theorem foldl_install (rows : List ProviderSettings) (h : r.Sound) :
    (rows.foldl (fun r row => r.install row none) r).Sound ∧
    ∀ id e, (rows.foldl (fun r row => r.install row none) r).get id = some e →
      r.get id = some e ∨ e.settings ∈ rows := by
  induction rows generalizing r with
  | nil => exact ⟨h, fun _ _ => Or.inl⟩
  | cons row rows ih =>
    obtain ⟨hsound, hget⟩ := ih (h.install (by simp) : (r.install row none).Sound)
    refine ⟨hsound, ?_⟩
    intro id e he
    rcases hget id e he with he | he
    · rw [get_install] at he
      split_ifs at he
      · cases he
        exact Or.inr (List.mem_cons_self ..)
      · exact Or.inl he
    · exact Or.inr (List.mem_cons_of_mem _ he)

/-- The rows of a boot, each under its id. -/
theorem foldl_install_settings (rows : List ProviderSettings) (hkey : (rows.map (·.id)).Nodup)
    (id : String) : (rows.foldl (fun r row => r.install row none) r).settings id =
      (rows.find? fun row => row.id = id).or (r.settings id) := by
  induction rows generalizing r with
  | nil => rfl
  | cons row rows ih =>
    obtain ⟨hnew, hrest⟩ := List.nodup_cons.1 hkey
    rw [List.foldl_cons, ih hrest]
    unfold ProviderRegistry.settings
    rw [get_install]
    by_cases hid : row.id = id
    · have hnone : rows.find? (fun row => row.id = id) = none := by
        rw [List.find?_eq_none]
        intro row' hrow' hid'
        refine hnew (List.mem_map.2 ⟨row', hrow', ?_⟩)
        exact (of_decide_eq_true hid').trans hid.symm
      rw [hnone, if_pos hid.symm, List.find?_cons_of_pos (by simpa using hid)]
      rfl
    · rw [if_neg (Ne.symm hid), List.find?_cons_of_neg (by simpa using hid)]

/-- **The registry a process starts from** is sound, and holds the rows and the
    config provider. -/
theorem boot_spec (rows : List ProviderSettings) (config : Option (OidcConfig × Bool)) :
    (boot rows config).Sound ∧
    ∀ id e, (boot rows config).get id = some e →
      (∃ c ∈ config, e.settings = c.1.settings) ∨ e.settings ∈ rows := by
  obtain ⟨hsound, hget⟩ := foldl_install rows empty_sound
  have hrows : ∀ id e, (rows.foldl (fun r row => r.install row none) empty).get id = some e →
      e.settings ∈ rows := by
    intro id e he
    rcases hget id e he with he | he
    · cases he
    · exact he
  cases config with
  | none => exact ⟨hsound, fun id e he => Or.inr (hrows id e he)⟩
  | some config =>
    obtain ⟨config, tokenEndpoint⟩ := config
    constructor
    · refine hsound.install ?_
      intro c hc
      cases hc
      exact ⟨rfl, rfl⟩
    · intro id e he
      change (install _ _ _).get id = some e at he
      rw [get_install] at he
      split_ifs at he
      · cases he
        exact Or.inl ⟨_, rfl, rfl⟩
      · exact Or.inr (hrows id e he)

end ProviderRegistry

/-! ## Login transactions -/

/-- `TXN_TTL_SECS`. -/
def txnTtlSecs : ℕ := 600

structure TxnRecord where
  providerId : String
  state : String
  nonce : String
  pkceVerifier : String
  returnTo : Option String
  createdAt : Timestamp
deriving DecidableEq, Repr

/-- `TxnStore`. -/
abbrev TxnStore := String → Option TxnRecord

namespace TxnStore

/-- `TxnStore::insert`, under the id it draws. -/
def insert (txns : TxnStore) (id : String) (record : TxnRecord) : TxnStore :=
  Function.update txns id (some record)

/-- `TxnStore::take`: what was there, and the store without it. -/
def take (txns : TxnStore) (id : String) : Option TxnRecord × TxnStore :=
  (txns id, Function.update txns id none)

/-- `TxnStore::provider_of`. -/
def providerOf (txns : TxnStore) (id : String) : Option String := (txns id).map (·.providerId)

/-- `TxnStore::discard`. -/
def discard (txns : TxnStore) (id : String) : TxnStore := (txns.take id).2

end TxnStore

end SessionBroker
