/-
  A subject of the broker names one person.

  * `Timely`: what an admin request checked before it awaited discovery is still
    so when it installs: its client is of the issuer it installs, and where the
    issuer of the id changes, nobody is under the id, in the store or in flight;
  * `PeopleInv`: every session and every callback under an id is of the issuer
    the registry has for it, and no subject of the config provider is in the
    namespace of another provider;
  * `subject_names_one_person`: so it is in every timely run;
    `subject_names_two_people` is a run that is not timely.
-/
import SessionBroker.SignOn

namespace SessionBroker

open Runs SignOn

/-! ## The namespace of an id -/

section
variable {id id' sub sub' : String}

theorem toList_personSubject (h : id ≠ defaultProvider) :
    (personSubject id sub).toList = id.toList ++ '|' :: sub.toList := by
  unfold personSubject
  rw [if_neg h, String.toList_append, String.toList_append, List.append_assoc]
  rfl

/-- A person of a store provider is in its namespace. -/
theorem inNamespace_personSubject (h : id ≠ defaultProvider) :
    InNamespace id (personSubject id sub) := by
  unfold InNamespace
  rw [toList_personSubject h, List.take_append, List.take_of_length_le (by omega)]
  simp

/-- With no bar in the id, the namespace is what is before the first bar. -/
theorem inNamespace_iff (h : '|' ∉ id.toList) :
    InNamespace id sub ↔ ∃ rest, splitOnce '|' sub = some (id, rest) := by
  unfold InNamespace
  constructor
  · intro hpre
    refine ⟨.ofList (sub.toList.drop (id.toList.length + 1)), splitOnce_eq_some.2 ⟨?_, h⟩⟩
    rw [String.toList_ofList]
    conv_lhs => rw [← List.take_append_drop (id.toList.length + 1) sub.toList, hpre]
    simp
  · rintro ⟨rest, hsplit⟩
    rw [(splitOnce_eq_some.1 hsplit).1, List.take_append, List.take_of_length_le (by omega)]
    simp

/-- Ids with no bar have namespaces of their own. -/
theorem InNamespace.unique (h : InNamespace id sub) (h' : InNamespace id' sub)
    (hid : '|' ∉ id.toList) (hid' : '|' ∉ id'.toList) : id = id' := by
  obtain ⟨rest, hsplit⟩ := (inNamespace_iff hid).1 h
  obtain ⟨rest', hsplit'⟩ := (inNamespace_iff hid').1 h'
  rw [hsplit] at hsplit'
  cases hsplit'
  rfl

theorem personSubject_injective (h : personSubject id sub = personSubject id sub') : sub = sub' := by
  by_cases hid : id = defaultProvider
  · unfold personSubject at h
    rwa [if_pos hid, if_pos hid] at h
  · have hl := congrArg String.toList h
    rw [toList_personSubject hid, toList_personSubject hid] at hl
    have htail := List.append_cancel_left hl
    exact String.toList_injective (List.cons.inj htail).2

theorem isSlug_no_bar (h : isSlug id = true) : '|' ∉ id.toList := by
  unfold isSlug at h
  simp only [Bool.and_eq_true, List.all_eq_true] at h
  intro hbar
  have hchar := h.2 '|' hbar
  revert hchar
  decide

end

theorem CreateRequest.checked_id {parseUrl : String → Except String Url} {r : CreateRequest}
    {scopes : List String} (h : r.checked parseUrl = .ok scopes) :
    isSlug r.id = true ∧ r.id ∉ reservedIds := by
  unfold checked at h
  rw [bind_eq_ok] at h
  obtain ⟨_, hslug, h⟩ := h
  rw [bind_eq_ok] at h
  obtain ⟨_, hres, h⟩ := h
  unfold refuseUnless at hslug hres
  split_ifs at hslug hres with h₁ h₂
  exact ⟨h₁, by simpa using h₂⟩

/-- A collision is a provider whose namespace the subject is in. -/
theorem ProviderRegistry.subjectCollides_iff {r : ProviderRegistry} {sub : String} :
    r.subjectCollides sub = true ↔ ∃ name rest, splitOnce '|' sub = some (name, rest) ∧
      name ≠ defaultProvider ∧ (r.get name).isSome := by
  unfold subjectCollides
  cases splitOnce '|' sub with
  | none => simp
  | some pair =>
    obtain ⟨name, rest⟩ := pair
    constructor
    · intro h
      exact ⟨name, rest, rfl, by simpa using h⟩
    · rintro ⟨name', rest', hpair, h⟩
      cases hpair
      simpa using h

/-! ## The condition -/

/-- The callback has an entry or a client of the id, or was let through with a
    subject in its namespace. -/
def CallbackStage.Holds (id : String) : CallbackStage → Prop
  | connecting entry => entry.settings.id = id
  | connected client | exchanging client => client.providerId = id
  | identified client _ _ => client.providerId = id
  | admitted client _ tokens | inCustody client _ tokens =>
    client.providerId = id ∨ InNamespace id tokens.sub
  | _ => False

namespace SignOn

/-- The registry has another issuer for the id, or none. -/
def Reissues (s : SignOn) (job : ProviderJob) : Prop :=
  (s.registry.settings job.request.id).map (·.issuerUrl) ≠ some job.next.issuerUrl

/-- **What was checked before the await still holds at the install.** -/
def Timely (s : SignOn) : SignOnOp → Prop
  | .admin r .install => ∀ job, s.admins r = .installing job →
      (∀ c ∈ job.client, c.issuer = job.next.issuerUrl) ∧
      (s.Reissues job → s.db.providerNamespaceInUse job.request.id = false ∧
        ∀ r' c, s.callbacks r' = some c → ¬ c.stage.Holds job.request.id)
  | _ => True

/-- **A subject names one person.** -/
def OnePerson (s : SignOn) : Prop :=
  ∀ x ∈ s.sessions, ∀ y ∈ s.sessions, x.sub = y.sub →
    x.issuer = y.issuer ∧ x.upstreamSub = y.upstreamSub

end SignOn

/-! ## The invariant -/

/-- The registry has the id, with this issuer. -/
def ProviderRegistry.Issues (r : ProviderRegistry) (id issuer : String) : Prop :=
  ∃ e, r.get id = some e ∧ e.settings.issuerUrl = issuer

/-- A person the broker let in: of the issuer of their provider, under the
    subject it gives them. -/
structure Person (r : ProviderRegistry) (providerId issuer upstreamSub sub : String) : Prop where
  issues : r.Issues providerId issuer
  subject : sub = personSubject providerId upstreamSub
  apart : providerId = defaultProvider → r.subjectCollides sub = false

/-- A grant of the subject is in custody. -/
def Db.InCustody (db : Db) (providerId sub : String) : Prop :=
  ∃ row ∈ db.custody, row.providerId = providerId ∧ row.sub = sub

/-- What a callback knows of the person is so. -/
def CallbackStage.Knows (r : ProviderRegistry) (db : Db) : CallbackStage → Prop
  | connecting entry => r.Made entry ∧ r.Issues entry.settings.id entry.settings.issuerUrl
  | connected client | exchanging client => r.Issues client.providerId client.issuer
  | identified client upstreamSub tokens => r.Issues client.providerId client.issuer ∧
      tokens.sub = personSubject client.providerId upstreamSub ∧
      tokens.providerId = client.providerId
  | admitted client upstreamSub tokens =>
    Person r client.providerId client.issuer upstreamSub tokens.sub ∧
      tokens.providerId = client.providerId
  | inCustody client upstreamSub tokens =>
    Person r client.providerId client.issuer upstreamSub tokens.sub ∧
      tokens.providerId = client.providerId ∧ db.InCustody client.providerId tokens.sub
  | _ => True

/-- A job is about a store provider, and so is its client. -/
structure ProviderJob.Proper (job : ProviderJob) : Prop where
  store : job.request.id ≠ defaultProvider
  bar : '|' ∉ job.request.id.toList
  id : job.next.id = job.request.id
  client : ∀ c ∈ job.client, c.providerId = job.next.id

/-- A job that moves on is still about a store provider. -/
theorem ProviderJob.Proper.same {job job' : ProviderJob} (h : job.Proper) (hs : job.Same job')
    (hc : ∀ c ∈ job'.client, c.providerId = job'.next.id) : job'.Proper where
  store := by rw [hs.request]; exact h.store
  bar := by rw [hs.request]; exact h.bar
  id := by rw [hs.request, hs.id]; exact h.id
  client := hc

section
variable {r r' : ProviderRegistry} {db db' : Db}

theorem ProviderRegistry.Issues.unique {id issuer issuer' : String} (h : r.Issues id issuer)
    (h' : r.Issues id issuer') : issuer = issuer' := by
  obtain ⟨e, he, rfl⟩ := h
  obtain ⟨e', he', rfl⟩ := h'
  rw [he] at he'
  cases he'
  rfl

/-- A person stays who they are while their provider keeps its issuer, and no
    new provider takes their namespace. -/
theorem Person.keep {providerId issuer upstreamSub sub : String}
    (h : Person r providerId issuer upstreamSub sub)
    (hissues : r.Issues providerId issuer → r'.Issues providerId issuer)
    (hnew : ∀ id, (r'.get id).isSome → (r.get id).isSome ∨ ¬ InNamespace id sub) :
    Person r' providerId issuer upstreamSub sub where
  issues := hissues h.issues
  subject := h.subject
  apart := by
    intro hdefault
    by_contra hcollides
    rw [Bool.not_eq_false] at hcollides
    obtain ⟨name, rest, hsplit, hname, hget⟩ :=
      ProviderRegistry.subjectCollides_iff.1 hcollides
    have hbar : '|' ∉ name.toList := (splitOnce_eq_some.1 hsplit).2
    rcases hnew name hget with hold | hout
    · have hcol : r.subjectCollides sub = true :=
        ProviderRegistry.subjectCollides_iff.2 ⟨name, rest, hsplit, hname, hold⟩
      rw [h.apart hdefault] at hcol
      cases hcol
    · exact hout ((inNamespace_iff hbar).2 ⟨rest, hsplit⟩)

theorem Db.InCustody.mono {providerId sub : String} (h : db.InCustody providerId sub)
    (hdb : ∀ row ∈ db.custody, row ∈ db'.custody) : db'.InCustody providerId sub := by
  obtain ⟨row, hrow, hp, hs⟩ := h
  exact ⟨row, hdb row hrow, hp, hs⟩

/-- A grant in custody keeps its namespace in use. -/
theorem Db.InCustody.inUse {providerId sub id : String} (h : db.InCustody providerId sub)
    (hid : providerId = id ∨ InNamespace id sub) : db.providerNamespaceInUse id = true := by
  obtain ⟨row, hrow, rfl, rfl⟩ := h
  unfold providerNamespaceInUse
  rw [Bool.or_eq_true]
  exact Or.inl (List.any_eq_true.2 ⟨row, hrow, decide_eq_true hid⟩)

/-- What a callback knows stays so, where what it holds is let be. -/
theorem CallbackStage.Knows.keep {stage : CallbackStage} (h : stage.Knows r db)
    (hmade : ∀ e, r.Made e → r'.Made e)
    (hissues : ∀ id issuer, stage.Holds id → r.Issues id issuer → r'.Issues id issuer)
    (hnew : ∀ id, (r'.get id).isSome → (r.get id).isSome ∨ ¬ stage.Holds id)
    (hdb : ∀ row ∈ db.custody, row ∈ db'.custody) : stage.Knows r' db' := by
  cases stage with
  | connecting entry => exact ⟨hmade _ h.1, hissues _ _ rfl h.2⟩
  | connected client | exchanging client => exact hissues _ _ rfl h
  | identified client upstreamSub tokens => exact ⟨hissues _ _ rfl h.1, h.2⟩
  | admitted client upstreamSub tokens =>
    exact ⟨h.1.keep (hissues _ _ (Or.inl rfl)) fun id hid =>
      (hnew id hid).imp_right fun hno hin => hno (Or.inr hin), h.2⟩
  | inCustody client upstreamSub tokens =>
    exact ⟨h.1.keep (hissues _ _ (Or.inl rfl)) fun id hid =>
      (hnew id hid).imp_right fun hno hin => hno (Or.inr hin), h.2.1, h.2.2.mono hdb⟩
  | _ => trivial

end

namespace SignOn

/-- **Who is under an id.** -/
structure PeopleInv (s : SignOn) : Prop where
  sound : s.registry.Sound
  bars : ∀ id e, s.registry.get id = some e → id ≠ defaultProvider → '|' ∉ id.toList
  config : ∀ e, s.registry.get defaultProvider = some e → e.settings.readOnly = true
  logins : ∀ r e, s.logins r = .connecting e → s.registry.Made e
  jobs : ∀ r job, (s.admins r).job = some job → job.Proper
  callbacks : ∀ r c, s.callbacks r = some c → c.stage.Knows s.registry s.db
  sessions : ∀ x ∈ s.sessions, Person s.registry x.providerId x.issuer x.upstreamSub x.sub ∧
    s.db.InCustody x.providerId x.sub

variable {env : SignOnEnv} {s s' : SignOn} {op : SignOnOp}

/-- A client connects: no entry moves. -/
theorem PeopleInv.connect (h : s.PeopleInv) {entry : Entry} (hmade : s.registry.Made entry)
    (discovery : Discovery) :
    ({ s with registry := (s.registry.clientOf entry discovery).2 } : SignOn).PeopleInv := by
  have hissues : ∀ id issuer, s.registry.Issues id issuer →
      (s.registry.clientOf entry discovery).2.Issues id issuer := by
    rintro id issuer ⟨e, he, hiss⟩
    exact ⟨e, by rw [ProviderRegistry.get_clientOf]; exact he, hiss⟩
  have hnew : ∀ id, ((s.registry.clientOf entry discovery).2.get id).isSome →
      (s.registry.get id).isSome := by
    intro id hid
    rwa [ProviderRegistry.get_clientOf] at hid
  exact {
    sound := h.sound.clientOf hmade
    bars := by
      intro id e he
      rw [ProviderRegistry.get_clientOf] at he
      exact h.bars id e he
    config := by
      intro e he
      rw [ProviderRegistry.get_clientOf] at he
      exact h.config e he
    logins := fun r e he => (h.logins r e he).clientOf
    jobs := h.jobs
    callbacks := fun r c hc => (h.callbacks r c hc).keep (fun e he => he.clientOf)
      (fun id issuer _ => hissues id issuer) (fun id hid => Or.inl (hnew id hid)) fun row hrow => hrow
    sessions := fun x hx => ⟨(h.sessions x hx).1.keep (hissues _ _)
      fun id hid => Or.inl (hnew id hid), (h.sessions x hx).2⟩ }

/-- A login moves on. -/
theorem PeopleInv.setLogin (h : s.PeopleInv) {r : ℕ} {stage : BeginStage}
    (hstage : ∀ e, stage = .connecting e → s.registry.Made e) : (s.setLogin r stage).PeopleInv :=
  { h with
    logins := by
      intro r' e he
      change Function.update s.logins r stage r' = _ at he
      by_cases hr : r' = r
      · rw [hr, Function.update_self] at he
        exact hstage e he
      · rw [Function.update_of_ne hr] at he
        exact h.logins r' e he }

/-- A callback moves on. -/
theorem PeopleInv.setCallback (h : s.PeopleInv) {r : ℕ} {c : Callback} {stage : CallbackStage}
    (hstage : stage.Knows s.registry s.db) : (s.setCallback r c stage).PeopleInv :=
  { h with
    callbacks := by
      intro r' c' hc'
      change Function.update s.callbacks r _ r' = _ at hc'
      by_cases hr : r' = r
      · rw [hr, Function.update_self] at hc'
        cases hc'
        exact hstage
      · rw [Function.update_of_ne hr] at hc'
        exact h.callbacks r' c' hc' }

/-- An admin request moves on. -/
theorem PeopleInv.setAdmin (h : s.PeopleInv) {r : ℕ} {stage : AdminStage}
    (hstage : ∀ job, stage.job = some job → job.Proper) : (s.setAdmin r stage).PeopleInv :=
  { h with
    jobs := forall_setAdmin (P := fun _ stage => ∀ job, stage.job = some job → job.Proper) hstage
      fun r' _ => h.jobs r' }

/-- The store changes, and keeps what is in custody. -/
theorem PeopleInv.setDb (h : s.PeopleInv) {db : Db}
    (hdb : ∀ row ∈ s.db.custody, row ∈ db.custody) : ({ s with db } : SignOn).PeopleInv :=
  { h with
    callbacks := fun r c hc => (h.callbacks r c hc).keep (fun _ he => he) (fun _ _ _ hi => hi)
      (fun _ hid => Or.inl hid) hdb
    sessions := fun x hx => ⟨(h.sessions x hx).1, (h.sessions x hx).2.mono hdb⟩ }

/-- **An install that is timely takes nobody's issuer away.** -/
theorem PeopleInv.install (h : s.PeopleInv) {job : ProviderJob} (hp : job.Proper)
    (hclient : ∀ c ∈ job.client, c.issuer = job.next.issuerUrl)
    (hfree : s.Reissues job → s.db.providerNamespaceInUse job.request.id = false ∧
      ∀ r c, s.callbacks r = some c → ¬ c.stage.Holds job.request.id) :
    ({ s with registry := s.registry.install job.next job.client } : SignOn).PeopleInv := by
  have hget : ∀ id e, (s.registry.install job.next job.client).get id = some e →
      (id = job.request.id ∧ e.settings = job.next) ∨
        (id ≠ job.request.id ∧ s.registry.get id = some e) := by
    intro id e he
    rw [ProviderRegistry.get_install, hp.id] at he
    split_ifs at he with hid
    · cases he
      exact Or.inl ⟨hid, rfl⟩
    · exact Or.inr ⟨hid, he⟩
  -- an issuer stays, but for that of an id nobody is under
  have hissues : ∀ id issuer, (s.Reissues job → id ≠ job.request.id) →
      s.registry.Issues id issuer →
      (s.registry.install job.next job.client).Issues id issuer := by
    rintro id issuer hid ⟨e, he, hiss⟩
    by_cases hsame : id = job.request.id
    · have hre : ¬ s.Reissues job := fun hre => hid hre hsame
      unfold Reissues ProviderRegistry.settings at hre
      rw [not_not, ← hsame, he] at hre
      refine ⟨⟨s.registry.cells.length, job.next⟩, ?_, ?_⟩
      · rw [ProviderRegistry.get_install, hp.id, if_pos hsame]
      · exact (Option.some.inj hre).symm.trans hiss
    · refine ⟨e, ?_, hiss⟩
      rw [ProviderRegistry.get_install, hp.id, if_neg hsame]
      exact he
  have hnew : ∀ id, ((s.registry.install job.next job.client).get id).isSome →
      (s.registry.get id).isSome ∨ (s.Reissues job ∧ id = job.request.id) := by
    intro id hid
    by_cases hsame : id = job.request.id
    · by_cases hre : s.Reissues job
      · exact Or.inr ⟨hre, hsame⟩
      · unfold Reissues ProviderRegistry.settings at hre
        rw [not_not, Option.map_map] at hre
        obtain ⟨e, he, -⟩ := Option.map_eq_some_iff.1 hre
        exact Or.inl (by rw [hsame, he]; rfl)
    · rw [ProviderRegistry.get_install, hp.id, if_neg hsame] at hid
      exact Or.inl hid
  exact {
    sound := h.sound.install fun c hc => ⟨hp.client c hc, hclient c hc⟩
    bars := by
      intro id e he hdefault
      rcases hget id e he with ⟨rfl, -⟩ | ⟨-, he⟩
      · exact hp.bar
      · exact h.bars id e he hdefault
    config := by
      intro e he
      rcases hget _ e he with ⟨hid, -⟩ | ⟨-, he⟩
      · exact absurd hid.symm hp.store
      · exact h.config e he
    logins := fun r e he => (h.logins r e he).install
    jobs := h.jobs
    callbacks := by
      intro r c hc
      refine (h.callbacks r c hc).keep (fun e he => he.install) ?_ ?_ fun row hrow => hrow
      · rintro id issuer hholds hiss
        refine hissues id issuer (fun hre hid => ?_) hiss
        exact (hfree hre).2 r c hc (hid ▸ hholds)
      · intro id hid
        rcases hnew id hid with hold | ⟨hre, rfl⟩
        · exact Or.inl hold
        · exact Or.inr ((hfree hre).2 r c hc)
    sessions := by
      intro x hx
      obtain ⟨hperson, hcustody⟩ := h.sessions x hx
      have hout : s.Reissues job → ¬ (x.providerId = job.request.id ∨
          InNamespace job.request.id x.sub) := by
        intro hre hin
        have huse := hcustody.inUse hin
        rw [(hfree hre).1] at huse
        cases huse
      refine ⟨hperson.keep (hissues _ _ fun hre hid => hout hre (Or.inl hid)) ?_, hcustody⟩
      intro id hid
      rcases hnew id hid with hold | ⟨hre, rfl⟩
      · exact Or.inl hold
      · exact Or.inr fun hin => hout hre (Or.inr hin) }

/-- A job that was made of a read is about a store provider. -/
theorem PeopleInv.read_proper (h : s.PeopleInv) {request : ProviderRequest} {job : ProviderJob}
    (hread : (request.read env.parseUrl s.registry).job = some job) : job.Proper := by
  obtain ⟨rfl, hclient, hfrom, hplan⟩ := ProviderRequest.read_job hread
  have hnone : ∀ c ∈ job.client, c.providerId = job.next.id := by
    rw [hclient]
    intro c hc
    cases hc
  -- an update or a removal is of an entry that may be written
  have hcurrent : ∀ settings, job.current = some settings → settings.readOnly = false →
      job.request.id ≠ defaultProvider ∧ '|' ∉ job.request.id.toList ∧
        settings.id = job.request.id := by
    intro settings hcur hro
    rw [hfrom.current] at hcur
    obtain ⟨e, he, rfl⟩ := Option.map_eq_some_iff.1 hcur
    have hstore : job.request.id ≠ defaultProvider := by
      intro hdefault
      rw [hdefault] at he
      rw [h.config e he] at hro
      cases hro
    exact ⟨hstore, h.bars _ e he hstore, (h.sound.listed.made he).2⟩
  unfold ProviderJob.Planned at hplan
  cases hreq : job.request with
  | create r =>
    rw [hreq] at hplan
    obtain ⟨⟨scopes, hck, hnext⟩, -⟩ := hplan
    obtain ⟨hslug, hres⟩ := CreateRequest.checked_id hck
    have hid : job.next.id = r.id := congrArg ProviderSettings.id hnext
    refine ⟨?_, ?_, ?_, hnone⟩
    · rw [hreq]
      intro hdefault
      exact hres (List.mem_cons.2 (Or.inl hdefault))
    · rw [hreq]
      exact isSlug_no_bar hslug
    · rw [hreq]
      exact hid
  | update id r =>
    rw [hreq] at hplan
    obtain ⟨settings, hcur, -, hro, hnext⟩ := hplan
    obtain ⟨hstore, hbar, hid⟩ := hcurrent settings hcur hro
    exact ⟨hstore, hbar, (congrArg ProviderSettings.id hnext).trans hid, hnone⟩
  | remove id =>
    rw [hreq] at hplan
    obtain ⟨settings, hcur, -, hro, hnext⟩ := hplan
    obtain ⟨hstore, hbar, hid⟩ := hcurrent settings hcur hro
    exact ⟨hstore, hbar, (congrArg ProviderSettings.id hnext).trans hid, hnone⟩

theorem PeopleInv.connect_proper (h : s.PeopleInv) {job job' : ProviderJob} (hp : job.Proper)
    {now : Timestamp} {discovery : Discovery}
    (hjob : (job.connect s.registry now discovery).job = some job') : job'.Proper := by
  obtain ⟨hsame, -, hclient⟩ := ProviderJob.connect_job hjob
  refine hp.same hsame ?_
  intro c hc
  rcases hclient with hold | ⟨c', hc', hsuits⟩ | hconn
  · rw [hold] at hc
    rw [hsame.id]
    exact hp.client c hc
  · rw [hc'] at hc
    cases hc
    exact hsuits.1
  · -- the client of the entry the registry has
    rw [hconn] at hc
    obtain ⟨e, he, hcell⟩ := Option.bind_eq_some_iff.1 hc
    obtain ⟨hmade, hid⟩ := h.sound.listed.made he
    rw [(h.sound.suits e c hmade hcell).1, hid, hsame.id, hp.id]

/-- What a grant in flight says of the person. -/
theorem knows_ofGrant {r : ProviderRegistry} {db : Db} {client : OidcClient} {now : Timestamp}
    (h : r.Issues client.providerId client.issuer) (answer : Except OauthError UpstreamGrant) :
    (CallbackStage.ofGrant client now answer).Knows r db := by
  cases answer with
  | error error => trivial
  | ok grant => exact ⟨h, rfl, rfl⟩

theorem knows_redeem (c : Callback) {r : ProviderRegistry} {db : Db} {client : OidcClient}
    (h : r.Issues client.providerId client.issuer) (txns : TxnStore) :
    (c.redeem client txns).2.2.Knows r db := by
  unfold Callback.redeem
  cases c.query.codeAndState client with
  | error error => trivial
  | ok pair =>
    obtain ⟨code, state⟩ := pair
    simp only
    cases client.checkTxn (txns.take c.txnId).1 state c.now with
    | error error => trivial
    | ok record =>
      simp only
      split_ifs
      · exact h
      · trivial

/-- **A timely move keeps the invariant.** -/
theorem PeopleInv.move (h : s.PeopleInv) (hm : Move env s op s') (ht : s.Timely op) :
    s'.PeopleInv := by
  cases hm with
  | @loginArrive r requested hidle =>
    refine h.setLogin ?_
    intro e he
    cases hentry : s.registry.entryForLogin requested with
    | error refusal =>
      rw [hentry] at he
      cases he
    | ok entry =>
      rw [hentry] at he
      cases he
      obtain ⟨id, hmem⟩ := ProviderRegistry.entryForLogin_mem hentry
      exact (h.sound.listed _ hmem).1
  | @loginRefused r entry discovery draw now refusal hstage =>
    exact (h.connect (h.logins r entry hstage) discovery).setLogin fun e he => by cases he
  | @loginBegun r entry discovery draw now client hstage hcl =>
    have hcon := h.connect (h.logins r entry hstage) discovery
    have hbegun : (({ s with registry := (s.registry.clientOf entry discovery).2 } : SignOn).begin_
        draw.txnId (client.beginLogin draw now)).PeopleInv := { hcon with }
    exact hbegun.setLogin fun e he => by cases he
  | arrive hnone => exact h.setCallback trivial
  | @readTxn r c hc hstage =>
    refine h.setCallback ?_
    unfold CallbackStage.readTxn
    split <;> trivial
  | @readEntry r c providerId hc hstage =>
    refine h.setCallback ?_
    unfold CallbackStage.readEntry
    cases hget : (s.registry.get providerId).filter (!·.settings.deleted) with
    | none => trivial
    | some entry =>
      simp only
      split_ifs
      · have hentry := (Option.filter_eq_some_iff.1 hget).1
        obtain ⟨hmade, hid⟩ := h.sound.listed.made hentry
        exact ⟨hmade, entry, hid ▸ hentry, rfl⟩
      · trivial
  | @connected r c entry discovery hc hstage =>
    have hknows := h.callbacks r c hc
    rw [hstage] at hknows
    refine (h.connect hknows.1 discovery).setCallback ?_
    cases hcl : (s.registry.clientOf entry discovery).1 with
    | error failure => trivial
    | ok client =>
      obtain ⟨hid, hissuer⟩ := ProviderRegistry.clientOf_suits h.sound hknows.1 hcl
      obtain ⟨e, he, hiss⟩ := hknows.2
      show (s.registry.clientOf entry discovery).2.Issues client.providerId client.issuer
      rw [hid, hissuer]
      exact ⟨e, by rw [ProviderRegistry.get_clientOf]; exact he, hiss⟩
  | @redeem r c client hc hstage =>
    have hknows := h.callbacks r c hc
    rw [hstage] at hknows
    have hinv : ({ s with
        txns := (c.redeem client s.txns).1
        exchanges := s.exchanges ++ (c.redeem client s.txns).2.1.toList } : SignOn).PeopleInv :=
      { h with }
    exact hinv.setCallback (knows_redeem c hknows s.txns)
  | @discard r c error hc hstage =>
    have hinv : ({ s with txns := s.txns.discard c.txnId } : SignOn).PeopleInv := { h with }
    exact hinv.setCallback trivial
  | @exchanged r c client answer hc hstage =>
    have hknows := h.callbacks r c hc
    rw [hstage] at hknows
    exact h.setCallback (knows_ofGrant hknows answer)
  | @checkSubject r c client upstreamSub tokens hc hstage =>
    have hknows := h.callbacks r c hc
    rw [hstage] at hknows
    obtain ⟨hissues, hsub, hprov⟩ := hknows
    refine h.setCallback ?_
    unfold CallbackStage.checkSubject
    split_ifs with hcol
    · trivial
    · refine ⟨⟨hissues, hsub, fun hdefault => ?_⟩, hprov⟩
      rw [← Bool.not_eq_true]
      exact fun htrue => hcol ⟨hprov.trans hdefault, htrue⟩
  | custodyFailed hc hstage => exact h.setCallback trivial
  | @takeCustody r c client upstreamSub tokens custodyId nextRefresh fails db hc hstage hins =>
    have hknows := h.callbacks r c hc
    rw [hstage] at hknows
    obtain ⟨rows, hrows, rfl⟩ := Option.map_eq_some_iff.1 hins
    obtain ⟨-, rfl⟩ := Table.insertRow_eq_some.1 hrows
    refine (h.setDb fun row hrow => List.mem_append_left _ hrow).setCallback ?_
    exact ⟨hknows.1, hknows.2, _, List.mem_append_right _ (List.mem_singleton_self _), hknows.2, rfl⟩
  | @createSession r c client upstreamSub tokens sid hc hstage =>
    have hknows := h.callbacks r c hc
    rw [hstage] at hknows
    have hinv : (s.signIn ⟨sid, tokens.sub, client.providerId, client.issuer, upstreamSub⟩).PeopleInv :=
      { h with
        sessions := by
          intro x hx
          rcases List.mem_append.1 hx with hx | hx
          · exact h.sessions x hx
          · cases List.mem_singleton.1 hx
            exact ⟨hknows.1, hknows.2.2⟩ }
    exact hinv.setCallback trivial
  | @adminArrive r request hidle =>
    refine h.setAdmin fun job hjob => ?_
    rw [ProviderRequest.arrive_job] at hjob
    cases hjob
  | adminRead hstage => exact h.setAdmin fun job hjob => h.read_proper hjob
  | @adminNamespace r job fails hstage =>
    refine h.setAdmin fun job' hjob => ?_
    rw [ProviderJob.readNamespace_job hjob]
    exact h.jobs r job (by rw [hstage]; rfl)
  | @adminConnect r job now discovery hstage =>
    exact h.setAdmin fun job' hjob =>
      h.connect_proper (h.jobs r job (by rw [hstage]; rfl)) hjob
  | @adminWrite r job now fails hstage =>
    have hp := h.jobs r job (by rw [hstage]; rfl)
    have hcustody : (job.write env.ring s.db now fails).1.custody = s.db.custody := by
      cases hjob : (job.write env.ring s.db now fails).2.job with
      | none => rw [ProviderJob.write_db hjob]
      | some job' => exact (Db.applyAdmin_sameCore (ProviderJob.write_job hjob).2.2).1
    refine (h.setDb fun row hrow => by rw [hcustody]; exact hrow).setAdmin fun job' hjob => ?_
    obtain ⟨hsame, hclient⟩ := job.written_same now
    rw [(ProviderJob.write_job hjob).1]
    refine hp.same hsame fun c hc => ?_
    rw [hclient] at hc
    rw [hsame.id]
    exact hp.client c hc
  | @adminInstall r job hstage =>
    obtain ⟨hclient, hfree⟩ := ht job hstage
    have hinv := h.install (h.jobs r job (by rw [hstage]; rfl)) hclient hfree
    have happlied : ({ s with
        registry := s.registry.install job.next job.client
        applied := s.applied ++ [job.request] } : SignOn).PeopleInv := { hinv with }
    exact happlied.setAdmin fun job' hjob => by cases hjob

/-! ## Runs -/

/-- The rows of the store were made by the admin lane: their ids are slugs, and
    none is reserved. -/
def ProperIds (db : Db) : Prop :=
  ∀ row ∈ db.identityProvider, isSlug row.id = true ∧ row.id ∉ reservedIds

theorem boot_peopleInv {db : Db} (hids : ProperIds db) (config : Option (OidcConfig × Bool)) :
    (boot env db config).PeopleInv := by
  obtain ⟨hsound, hget⟩ := ProviderRegistry.boot_spec
    (db.identityProvider.map (·.settings env.ring)) config
  have hrow : ∀ id e, (boot env db config).registry.get id = some e →
      (id = defaultProvider ∧ e.settings.readOnly = true) ∨ (isSlug id = true ∧ id ∉ reservedIds) := by
    intro id e he
    have hid := (hsound.listed.made he).2
    rcases hget id e he with ⟨c, -, hc⟩ | hmem
    · rw [hc] at hid
      exact Or.inl ⟨hid.symm, by rw [hc]; rfl⟩
    · obtain ⟨row, hrow, hset⟩ := List.mem_map.1 hmem
      rw [← hid, ← hset]
      exact Or.inr (hids row hrow)
  exact {
    sound := hsound
    bars := by
      intro id e he hdefault
      rcases hrow id e he with ⟨hid, -⟩ | ⟨hslug, -⟩
      · exact absurd hid hdefault
      · exact isSlug_no_bar hslug
    config := by
      intro e he
      rcases hrow _ e he with ⟨-, hro⟩ | ⟨-, hres⟩
      · exact hro
      · exact absurd (List.mem_cons_self ..) hres
    logins := fun r e he => by cases he
    jobs := fun r job hjob => by cases hjob
    callbacks := fun r c hc => by cases hc
    sessions := fun x hx => by cases hx }

theorem PeopleInv.onePerson (h : s.PeopleInv) : s.OnePerson := by
  intro x hx y hy hsub
  obtain ⟨px, -⟩ := h.sessions x hx
  obtain ⟨py, -⟩ := h.sessions y hy
  -- a person of the config provider is not a person of a store provider
  have hcross : ∀ {p q i j u v sub sub' : String}, Person s.registry p i u sub →
      Person s.registry q j v sub' → sub = sub' → p = defaultProvider → q = defaultProvider := by
    intro p q i j u v sub sub' hp hq hsame hdefault
    by_contra hstore
    obtain ⟨e, he, -⟩ := hq.issues
    have hin : InNamespace q sub := by
      rw [hsame, hq.subject]
      exact inNamespace_personSubject hstore
    obtain ⟨rest, hsplit⟩ := (inNamespace_iff (h.bars q e he hstore)).1 hin
    have hcol : s.registry.subjectCollides sub = true :=
      ProviderRegistry.subjectCollides_iff.2 ⟨q, rest, hsplit, hstore, by rw [he]; rfl⟩
    rw [hp.apart hdefault] at hcol
    cases hcol
  have hprov : x.providerId = y.providerId := by
    by_cases hx' : x.providerId = defaultProvider
    · rw [hx', hcross px py hsub hx']
    · have hy' : y.providerId ≠ defaultProvider := fun hy' => hx' (hcross py px hsub.symm hy')
      obtain ⟨e, he, -⟩ := px.issues
      obtain ⟨e', he', -⟩ := py.issues
      have hin : InNamespace x.providerId x.sub := px.subject ▸ inNamespace_personSubject hx'
      have hin' : InNamespace y.providerId x.sub :=
        hsub ▸ py.subject ▸ inNamespace_personSubject hy'
      exact hin.unique hin' (h.bars _ e he hx') (h.bars _ e' he' hy')
  refine ⟨(hprov ▸ px.issues).unique py.issues, ?_⟩
  have hpeople : personSubject x.providerId x.upstreamSub =
      personSubject x.providerId y.upstreamSub := by
    rw [← px.subject, hsub, py.subject, hprov]
  exact personSubject_injective hpeople

end SignOn

/-- **A broker subject names one person**, in every run whose installs are
    timely. -/
theorem subject_names_one_person (env : SignOnEnv) (db : Db) (hids : ProperIds db)
    (config : Option (OidcConfig × Bool)) (ops : List SignOnOp)
    (htimely : Along (step env) Timely (boot env db config) ops) :
    (run (step env) (boot env db config) ops).OnePerson := by
  have hstep : ∀ (s : SignOn) op, s.PeopleInv → s.Timely op → (s.step env op).PeopleInv := by
    intro s op h ht
    rcases step_move op with hsame | hm
    · rw [hsame]
      exact h
    · exact h.move hm ht
  exact (along_invariant hstep (boot_peopleInv hids config) htimely).onePerson

/-! ## An issuer changed under a login -/

namespace ChangedIssuer

def ring : KeyRing := ⟨1, [1]⟩

def env : SignOnEnv := ⟨ring, fun _ => .ok ⟨"https", "", none, some (.domain "b.example"), none, none⟩⟩

def row : ProviderRecord :=
  ⟨"p", "generic", "P", "https://a.example", "c", ring.seal [120] (providerSecretContext "p"),
    ["openid"], true, ⟨0⟩, ⟨0⟩, none⟩

def db : Db := { Db.fresh ⟨0⟩ with identityProvider := [row] }

def query : CallbackQuery where
  code := some "code"
  state := some "state"

/-- A login, up to the answer to its code. -/
def begins (r : ℕ) (txnId : String) : List SignOnOp :=
  [.login r (.arrive (some "p")),
   .login r (.connected (.ok true) ⟨txnId, "state", "n", "v", none⟩ ⟨0⟩),
   .callback r (.arrive txnId query ⟨1⟩), .callback r .readTxn, .callback r .readEntry,
   .callback r (.connected (.ok true)), .callback r .redeem]

/-- The rest of it: the provider says it is "1". -/
def ends (r : ℕ) (custodyId : String) (sid : String) : List SignOnOp :=
  [.callback r (.exchanged (.ok ⟨"1", "token", none, none, none⟩)), .callback r .checkSubject,
   .callback r (.takeCustody ⟨custodyId⟩ ⟨300⟩ false), .callback r (.createSession ⟨sid⟩)]

/-- The provider is given another issuer. -/
def moves : List AdminOp :=
  [.arrive (.update "p" { issuerUrl := some "https://b.example" }), .read, .readNamespace false,
   .connect ⟨1⟩ (.ok true), .write ⟨1⟩ false, .install]

/-- It is written, and not installed. -/
def moving : SignOn := run (step env) (boot env db none) ((moves.take 5).map (.admin 0))

end ChangedIssuer

open ChangedIssuer in
/-- **A subject names two people**: the namespace is found empty while a login at
    the old issuer awaits its answer. -/
theorem subject_names_two_people :
    ¬ ∀ (env : SignOnEnv) (db : Db) (config : Option (OidcConfig × Bool)) (ops : List SignOnOp),
      ProperIds db → (run (step env) (boot env db config) ops).OnePerson := by
  intro h
  have hids : ProperIds db := by
    intro row hrow
    cases List.mem_singleton.1 hrow
    decide +kernel
  have hone := h env db none (begins 0 "t" ++ moves.map (.admin 0) ++ ends 0 "c" "s" ++
    begins 1 "t'" ++ ends 1 "c'" "s'") hids
  have hsessions : (run (step env) (boot env db none) (begins 0 "t" ++ moves.map (.admin 0) ++
      ends 0 "c" "s" ++ begins 1 "t'" ++ ends 1 "c'" "s'")).sessions =
      [⟨⟨"s"⟩, "p|1", "p", "https://a.example", "1"⟩,
        ⟨⟨"s'"⟩, "p|1", "p", "https://b.example", "1"⟩] := by decide +kernel
  unfold OnePerson at hone
  rw [hsessions] at hone
  have hsame := hone _ (List.mem_cons_self ..) _ (List.mem_cons_of_mem _ (List.mem_cons_self ..)) rfl
  exact absurd hsame.1 (by decide)

/-- An admin request leaves the callbacks be. -/
theorem run_admin_callbacks (env : SignOnEnv) (s : SignOn) (r : ℕ) (ops : List AdminOp) :
    (run (step env) s (ops.map (.admin r))).callbacks = s.callbacks := by
  induction ops generalizing s with
  | nil => rfl
  | cons op ops ih =>
    refine (ih (s.step env (.admin r op))).trans ?_
    show (s.stepAdmin env r op).callbacks = s.callbacks
    unfold stepAdmin
    split <;> rfl

open ChangedIssuer in
/-- Nobody is under the id when its issuer changes. -/
theorem subject_names_one_person_moved :
    (run (step env) (boot env db none)
      (moves.map (.admin 0) ++ begins 0 "t" ++ ends 0 "c" "s")).sessions =
        [⟨⟨"s"⟩, "p|1", "p", "https://b.example", "1"⟩] ∧
    (run (step env) (boot env db none)
      (moves.map (.admin 0) ++ begins 0 "t" ++ ends 0 "c" "s")).OnePerson := by
  refine ⟨by decide +kernel, ?_⟩
  have hids : ProperIds db := by
    intro row hrow
    cases List.mem_singleton.1 hrow
    decide +kernel
  refine subject_names_one_person env db hids none _ ?_
  rw [List.append_assoc, along_append]
  refine ⟨⟨trivial, trivial, trivial, trivial, trivial, ?_, trivial⟩, ?_⟩
  · intro job hjob
    change moving.admins 0 = _ at hjob
    have hmade : (moving.admins 0).job.map
        (fun job => (job.request.id, job.next.issuerUrl, job.client)) =
        some ("p", "https://b.example", some ⟨"p", "https://b.example", true⟩) := by
      decide +kernel
    rw [hjob] at hmade
    obtain ⟨hid, hissuer, hclient⟩ : job.request.id = "p" ∧
        job.next.issuerUrl = "https://b.example" ∧
        job.client = some ⟨"p", "https://b.example", true⟩ := by
      simpa [AdminStage.job] using hmade
    rw [hid, hissuer, hclient]
    refine ⟨fun c hc => ?_, fun _ => ⟨?_, fun r c hc => ?_⟩⟩
    · cases hc
      rfl
    · show moving.db.providerNamespaceInUse "p" = false
      decide +kernel
    · have hnone : moving.callbacks r = none := by
        unfold moving
        rw [run_admin_callbacks]
        rfl
      have hsome : moving.callbacks r = some c := hc
      rw [hnone] at hsome
      cases hsome
  · exact ⟨trivial, trivial, trivial, trivial, trivial, trivial, trivial, trivial, trivial, trivial,
      trivial, trivial⟩

end SessionBroker
