/-
  The registry of providers, side by side with the store.

  * `UpToDate`: nothing was installed under an id since the request that installs
    there read it;
  * `RowsInv`: the registry and the row of an id say the same, but while a
    request is between its write and its install, when the row has what it will
    install (`Tied`).  Two such requests, or one that read what is gone, can only
    end in an install that is not fresh (`Doomed`);
  * `registry_keeps_updates` holds in every fresh run;
    `registry_loses_updates` is a run that is not.
-/
import SessionBroker.ProviderRows
import SessionBroker.SignOn

namespace SessionBroker

open Runs SignOn Table

/-! ## The condition -/

/-- What a request is about to install. -/
def AdminStage.toInstall : AdminStage → Option ProviderJob
  | installing job => some job
  | _ => none

/-- What a request is about to write. -/
def AdminStage.toWrite : AdminStage → Option ProviderJob
  | writing job => some job
  | _ => none

/-- The request has not begun, or has its answer. -/
def AdminStage.finished : AdminStage → Bool
  | idle | answered .. => true
  | _ => false

namespace SignOn

/-- The entry that the job was made of is not the registry's any more. -/
def Stale (s : SignOn) (job : ProviderJob) : Prop :=
  (s.registry.get job.request.id).map (·.cell) ≠ job.seen

instance (s : SignOn) (job : ProviderJob) : Decidable (s.Stale job) :=
  inferInstanceAs (Decidable (_ ≠ _))

/-- **Nothing was installed under the id since the request read it.** -/
def UpToDate (s : SignOn) : SignOnOp → Prop
  | .admin r .install => ∀ job ∈ (s.admins r).toInstall, ¬ s.Stale job
  | _ => True

instance (s : SignOn) (op : SignOnOp) : Decidable (s.UpToDate op) := by
  unfold UpToDate
  split <;> infer_instance

/-- A removal is made in the second its provider was last changed in. -/
def Punctual (s : SignOn) : SignOnOp → Prop
  | .admin r (.write now _) => ∀ job ∈ (s.admins r).toWrite, job.Punctual now
  | _ => True

/-- **No update is lost**: a field that a request answered with success set has
    the value that the last such request gave it. -/
def NoneLost (s : SignOn) : Prop :=
  ∀ r request status, s.admins r = .answered request (.ok status) →
    ∀ field, (request.sets field).isSome → ∃ value settings,
      lastSet s.applied request.id field = some value ∧
      s.registry.settings request.id = some settings ∧ settings.value field = value

end SignOn

/-! ## The invariant -/

/-- The job was made of the entry it saw. -/
structure ProviderJob.ReadAt (job : ProviderJob) (registry : ProviderRegistry) : Prop where
  current : job.current = job.seen.bind (registry.cells[·]?)
  seen : ∀ c ∈ job.seen, c < registry.cells.length

/-- What holds of a job from its read on. -/
structure ProviderJob.Ready (job : ProviderJob) (env : SignOnEnv) (registry : ProviderRegistry) :
    Prop where
  planned : job.Planned env.parseUrl
  id : job.next.id = job.request.id
  read : job.ReadAt registry

namespace SignOn

/-- A request on the id that has written will not install fresh. -/
def Doomed (s : SignOn) (id : String) : Prop :=
  ∃ r job, (s.admins r).toInstall = some job ∧ job.request.id = id ∧
    (s.Stale job ∨ ∃ r' job', r' ≠ r ∧ (s.admins r').toInstall = some job' ∧ job'.request.id = id)

/-- **The registry and the row of an id say the same**, or the one request that
    has written says what the row says. -/
structure Tied (env : SignOnEnv) (dated : Prop) (s : SignOn) (id : String) : Prop where
  pending : ∀ r job, (s.admins r).toInstall = some job → job.request.id = id →
    Agree dated (some job.next) (s.db.providerSettings env.ring id)
  settled : (∀ r job, (s.admins r).toInstall = some job → job.request.id ≠ id) →
    Agree dated (s.registry.settings id) (s.db.providerSettings env.ring id)

structure RowsInv (env : SignOnEnv) (dated : Prop) (s : SignOn) : Prop where
  listed : s.registry.Listed
  key : UniqueOn (·.id) s.db.identityProvider
  jobs : ∀ r job, (s.admins r).job = some job → job.Ready env s.registry
  created : ∀ r job, (s.admins r).toWrite = some job → job.Dated
  tied : ∀ id ≠ defaultProvider, s.Doomed id ∨ s.Tied env dated id
  last : ∀ id field value, lastSet s.applied id field = some value →
    ∃ settings, s.registry.settings id = some settings ∧ settings.value field = value
  answered : ∀ r request status, s.admins r = .answered request (.ok status) →
    request ∈ s.applied

end SignOn

theorem AdminStage.job_of_toInstall {stage : AdminStage} {job : ProviderJob}
    (h : stage.toInstall = some job) : stage.job = some job := by
  cases stage with
  | installing => exact h
  | _ => cases h

theorem AdminStage.toInstall_of_finished {stage : AdminStage} (h : stage.finished = true) :
    stage.toInstall = none := by
  cases stage <;> first | rfl | cases h

/-! ## Stages before the write -/

/-- Neither about to install, nor answered with success. -/
def AdminStage.Undone : AdminStage → Prop
  | installing _ => False
  | answered _ (.ok _) => False
  | _ => True

section
variable {parseUrl : String → Except String Url} {registry : ProviderRegistry} {now : Timestamp}

theorem AdminStage.Undone.toInstall {stage : AdminStage} (h : stage.Undone) :
    stage.toInstall = none := by
  cases stage <;> first | rfl | exact h.elim

theorem AdminStage.Undone.not_success {stage : AdminStage} (h : stage.Undone)
    {request : ProviderRequest} {status : ℕ} : stage ≠ .answered request (.ok status) := by
  rintro rfl
  exact h

theorem ProviderRequest.arrive_stage (request : ProviderRequest)
    (parseUrl : String → Except String Url) :
    (request.arrive parseUrl).Undone ∧ (request.arrive parseUrl).toWrite = none := by
  unfold arrive
  cases request with
  | create r =>
    dsimp only
    split <;> exact ⟨trivial, rfl⟩
  | _ => exact ⟨trivial, rfl⟩

/-- A create does not write at once. -/
theorem ProviderRequest.read_stage (request : ProviderRequest) :
    (request.read parseUrl registry).Undone ∧
      ∀ job, (request.read parseUrl registry).toWrite = some job → job.Dated := by
  unfold read
  cases request with
  | create r =>
    dsimp only
    split
    · exact ⟨trivial, fun job hjob => by cases hjob⟩
    · split
      · split_ifs <;> exact ⟨trivial, fun job hjob => by cases hjob⟩
      · exact ⟨trivial, fun job hjob => by cases hjob⟩
  | update id r =>
    dsimp only
    split
    · exact ⟨trivial, fun job hjob => by cases hjob⟩
    · split
      · exact ⟨trivial, fun job hjob => by cases hjob⟩
      · split
        · exact ⟨trivial, fun job hjob => by cases hjob⟩
        · split_ifs <;> exact ⟨trivial, fun job hjob => by cases hjob⟩
  | remove id =>
    dsimp only
    split
    · exact ⟨trivial, fun job hjob => by cases hjob⟩
    · split
      · exact ⟨trivial, fun job hjob => by cases hjob⟩
      · refine ⟨trivial, fun job hjob r hr => ?_⟩
        cases hjob
        cases hr

theorem ProviderJob.readNamespace_stage (job : ProviderJob) (db : Db) (fails : Bool) :
    (job.readNamespace db fails).Undone ∧ (job.readNamespace db fails).toWrite = none := by
  unfold readNamespace
  split_ifs
  · exact ⟨trivial, rfl⟩
  · split <;> exact ⟨trivial, rfl⟩
  · exact ⟨trivial, rfl⟩

/-- A create has read the clock once it is about to write. -/
theorem ProviderJob.connect_stage (job : ProviderJob) (discovery : Discovery) :
    (job.connect registry now discovery).Undone ∧
      ∀ job', (job.connect registry now discovery).toWrite = some job' → job'.Dated := by
  obtain ⟨request, seen, current, next, client⟩ := job
  unfold connect
  cases request with
  | create r =>
    dsimp only
    split_ifs
    · split
      · refine ⟨trivial, fun job' hjob r hr => ?_⟩
        cases hjob
        exact ⟨now.secs, rfl, rfl⟩
      · exact ⟨trivial, fun job' hjob => by cases hjob⟩
    · refine ⟨trivial, fun job' hjob r hr => ?_⟩
      cases hjob
      exact ⟨now.secs, rfl, rfl⟩
  | update id r | remove id =>
    dsimp only
    split_ifs
    · split
      · refine ⟨trivial, fun job' hjob r hr => ?_⟩
        cases hjob
        cases hr
      · exact ⟨trivial, fun job' hjob => by cases hjob⟩
    all_goals
      refine ⟨trivial, fun job' hjob r hr => ?_⟩
      cases hjob
      cases hr

/-- A write that was not made is answered with a refusal. -/
theorem ProviderJob.write_refused {job : ProviderJob} {ring : KeyRing} {db : Db} {fails : Bool}
    (h : (job.write ring db now fails).2.job = none) :
    (job.write ring db now fails).2.Undone ∧ (job.write ring db now fails).2.toWrite = none := by
  unfold write at h ⊢
  split_ifs at h ⊢
  · exact ⟨trivial, rfl⟩
  · cases ha : db.applyAdmin ring (job.adminWrite now) with
    | none => exact ⟨trivial, rfl⟩
    | some applied =>
      obtain ⟨db', applied⟩ := applied
      rw [ha] at h
      cases applied with
      | true => cases h
      | false => exact ⟨trivial, rfl⟩

end

/-! ## Jobs -/

section
variable {registry registry' : ProviderRegistry} {job job' : ProviderJob} {env : SignOnEnv}

/-- The cells that were there stay. -/
theorem ProviderJob.ReadAt.grow (h : job.ReadAt registry) {cells : List ProviderSettings}
    (hcells : registry'.cells = registry.cells ++ cells) : job.ReadAt registry' where
  current := by
    rw [h.current]
    cases hseen : job.seen with
    | none => rfl
    | some c =>
      have hlt := h.seen c hseen
      rw [Option.bind_some, Option.bind_some, hcells, List.getElem?_append_left hlt]
  seen := by
    intro c hc
    have hlt := h.seen c hc
    rw [hcells, List.length_append]
    omega

theorem ProviderJob.Ready.grow (h : job.Ready env registry) {cells : List ProviderSettings}
    (hcells : registry'.cells = registry.cells ++ cells) : job.Ready env registry' :=
  { h with read := h.read.grow hcells }

/-- A job moves on. -/
theorem ProviderJob.Ready.same (h : job.Ready env registry) (hs : job.Same job')
    (hplan : job.Planned env.parseUrl → job'.Planned env.parseUrl) : job'.Ready env registry where
  planned := hplan h.planned
  id := by rw [hs.id, hs.request, h.id]
  read := by
    constructor
    · rw [hs.current, hs.seen]
      exact h.read.current
    · rw [hs.seen]
      exact h.read.seen

/-- What a request makes of its read. -/
theorem ProviderRequest.read_ready {request : ProviderRequest} (hlisted : registry.Listed)
    (h : (request.read env.parseUrl registry).job = some job) : job.Ready env registry := by
  obtain ⟨-, -, hfrom, hplan⟩ := ProviderRequest.read_job h
  have hread : job.ReadAt registry := by
    constructor
    · rw [hfrom.current, hfrom.seen, hlisted.settings_eq]
    · intro c hc
      rw [hfrom.seen] at hc
      obtain ⟨e, he, rfl⟩ := Option.map_eq_some_iff.1 hc
      exact (List.getElem?_eq_some_iff.1 (hlisted.made he).1).1
  refine ⟨hplan, ?_, hread⟩
  -- an update or a removal keeps the id of the entry
  have hcurrent : ∀ settings, job.current = some settings → settings.id = job.request.id := by
    intro settings hcur
    rw [hfrom.current] at hcur
    obtain ⟨e, he, rfl⟩ := Option.map_eq_some_iff.1 hcur
    exact (hlisted.made he).2
  unfold ProviderJob.Planned at hplan
  cases hreq : job.request with
  | create r =>
    rw [hreq] at hplan
    obtain ⟨⟨scopes, -, hnext⟩, -⟩ := hplan
    exact congrArg ProviderSettings.id hnext
  | update id r | remove id =>
    rw [hreq] at hplan
    obtain ⟨settings, hcur, -, -, hnext⟩ := hplan
    rw [hreq] at hcurrent
    exact (congrArg ProviderSettings.id hnext).trans (hcurrent settings hcur)

end

namespace SignOn

variable {env : SignOnEnv} {dated : Prop} {s s' : SignOn} {op : SignOnOp}

/-- Where a job is fresh, the registry has what it read. -/
theorem current_of_fresh {job : ProviderJob} (hlisted : s.registry.Listed)
    (hread : job.ReadAt s.registry) (hfresh : ¬ s.Stale job) :
    s.registry.settings job.request.id = job.current := by
  unfold Stale at hfresh
  rw [not_not] at hfresh
  rw [hlisted.settings_eq, hfresh, hread.current]

theorem Doomed.congr {id : String} (h : s.Doomed id)
    (hget : s'.registry.get id = s.registry.get id)
    (hinst : ∀ r job, (s.admins r).toInstall = some job → job.request.id = id →
      (s'.admins r).toInstall = some job) : s'.Doomed id := by
  obtain ⟨r, job, hr, rfl, hwhy⟩ := h
  refine ⟨r, job, hinst r job hr rfl, rfl, ?_⟩
  rcases hwhy with hstale | ⟨r', job', hne, hr', hid⟩
  · refine Or.inl ?_
    unfold Stale
    rw [hget]
    exact hstale
  · exact Or.inr ⟨r', job', hne, hinst r' job' hr' hid, hid⟩

theorem Tied.congr {id : String} (h : s.Tied env dated id)
    (hget : s'.registry.get id = s.registry.get id)
    (hrow : s'.db.findProvider id = s.db.findProvider id)
    (hinst : ∀ r job, job.request.id = id →
      ((s'.admins r).toInstall = some job ↔ (s.admins r).toInstall = some job)) :
    s'.Tied env dated id := by
  have hsettings : s'.db.providerSettings env.ring id = s.db.providerSettings env.ring id := by
    unfold Db.providerSettings
    rw [hrow]
  constructor
  · intro r job hr hid
    rw [hsettings]
    exact h.pending r job ((hinst r job hid).1 hr) hid
  · intro hnone
    unfold ProviderRegistry.settings
    rw [hsettings, hget]
    exact h.settled fun r job hr hid => hnone r job ((hinst r job hid).2 hr) hid

/-- A step that installs nothing, and leaves the rows and those who are about to
    install. -/
theorem RowsInv.frame (h : s.RowsInv env dated) (hlisted : s'.registry.Listed)
    (hget : ∀ id, s'.registry.get id = s.registry.get id)
    (hdb : s'.db.identityProvider = s.db.identityProvider)
    (happlied : s'.applied = s.applied)
    (hinst : ∀ r, (s'.admins r).toInstall = (s.admins r).toInstall)
    (hjobs : ∀ r job, (s'.admins r).job = some job → job.Ready env s'.registry)
    (hcreated : ∀ r job, (s'.admins r).toWrite = some job → job.Dated)
    (hanswered : ∀ r request status, s'.admins r = .answered request (.ok status) →
      request ∈ s.applied) : s'.RowsInv env dated where
  listed := hlisted
  key := hdb ▸ h.key
  jobs := hjobs
  created := hcreated
  tied := by
    intro id hid
    rcases h.tied id hid with hdoomed | htied
    · exact Or.inl (hdoomed.congr (hget id) fun r job hr _ => (hinst r).trans hr)
    · refine Or.inr (htied.congr (hget id) ?_ fun r job _ => by rw [hinst])
      unfold Db.findProvider
      rw [hdb]
  last := by
    intro id field value hlast
    rw [happlied] at hlast
    unfold ProviderRegistry.settings
    rw [hget]
    exact h.last id field value hlast
  answered := by
    intro r request status hr
    rw [happlied]
    exact hanswered r request status hr

/-- The registry connects a client, and a request moves on. -/
theorem RowsInv.quiet (h : s.RowsInv env dated)
    (hentries : s'.registry.entries = s.registry.entries)
    (hcells : s'.registry.cells = s.registry.cells)
    (hdb : s'.db.identityProvider = s.db.identityProvider) (happlied : s'.applied = s.applied)
    (hadmins : s'.admins = s.admins) : s'.RowsInv env dated := by
  refine h.frame ?_ ?_ hdb happlied (fun r => by rw [hadmins]) ?_ ?_ ?_
  · intro p hp
    rw [hentries] at hp
    unfold ProviderRegistry.Made
    rw [hcells]
    exact h.listed p hp
  · intro id
    unfold ProviderRegistry.get
    rw [hentries]
  · intro r job hjob
    rw [hadmins] at hjob
    exact (h.jobs r job hjob).grow (hcells.trans (List.append_nil _).symm)
  · rw [hadmins]
    exact h.created
  · rw [hadmins]
    exact h.answered

/-- An admin request moves on, and neither writes nor installs. -/
theorem RowsInv.setAdmin (h : s.RowsInv env dated) {r : ℕ} {stage : AdminStage}
    (hold : (s.admins r).toInstall = none) (hnew : stage.Undone)
    (hjob : ∀ job, stage.job = some job → job.Ready env s.registry)
    (hcreated : ∀ job, stage.toWrite = some job → job.Dated) :
    (s.setAdmin r stage).RowsInv env dated := by
  refine h.frame h.listed (fun id => rfl) rfl rfl ?_ ?_ ?_ ?_
  · refine forall_setAdmin (P := fun r' stage => stage.toInstall = (s.admins r').toInstall) ?_ ?_
    · rw [hold, hnew.toInstall]
    · exact fun r' _ => rfl
  · exact forall_setAdmin (P := fun _ stage => ∀ job, stage.job = some job →
      job.Ready env s.registry) hjob fun r' _ => h.jobs r'
  · exact forall_setAdmin (P := fun _ stage => ∀ job, stage.toWrite = some job → job.Dated)
      hcreated fun r' _ => h.created r'
  · refine forall_setAdmin (P := fun _ stage => ∀ request status,
      stage = .answered request (.ok status) → request ∈ s.applied) ?_ fun r' _ => h.answered r'
    exact fun request status hr => absurd hr hnew.not_success

/-! ## The write and the install -/

/-- Those who are about to install, once a request has moved on. -/
theorem toInstall_setAdmin {r r' : ℕ} {stage : AdminStage} :
    ((s.setAdmin r stage).admins r').toInstall =
      if r' = r then stage.toInstall else (s.admins r').toInstall := by
  show (Function.update s.admins r stage r').toInstall = _
  rw [Function.update_apply]
  split_ifs <;> rfl

/-- Another request than `r` is about to install on the id. -/
def Others (s : SignOn) (r : ℕ) (id : String) : Prop :=
  ∃ r' job, r' ≠ r ∧ (s.admins r').toInstall = some job ∧ job.request.id = id

/-- With no other request on the id, only `r` itself can be in its way. -/
theorem Doomed.alone {r : ℕ} {id : String} (h : s.Doomed id) (hothers : ¬ s.Others r id) :
    ∃ job, (s.admins r).toInstall = some job ∧ s.Stale job := by
  obtain ⟨r', job, hr', hid, hwhy⟩ := h
  by_cases hrr : r' = r
  · subst hrr
    rcases hwhy with hstale | ⟨r₂, job₂, hne, hr₂, hid₂⟩
    · exact ⟨job, hr', hstale⟩
    · exact absurd ⟨r₂, job₂, hne, hr₂, hid₂⟩ hothers
  · exact absurd ⟨r', job, hrr, hr', hid⟩ hothers

section
variable {r : ℕ} {job : ProviderJob} {now : Timestamp} {db : Db}

/-- Once the write has applied: the row has what will be installed, or it will
    not be installed fresh. -/
theorem RowsInv.write_tied (h : s.RowsInv env dated) (hring : env.ring.active ∈ env.ring.keys)
    (hr : s.admins r = .writing job) (hpunctual : dated → job.Punctual now)
    (ha : s.db.applyAdmin env.ring (job.adminWrite now) = some (db, true))
    (hid : job.request.id ≠ defaultProvider) :
    ({ s with db } |>.setAdmin r (.installing (job.written now))).Doomed job.request.id ∨
      ({ s with db } |>.setAdmin r (.installing (job.written now))).Tied env dated
        job.request.id := by
  obtain ⟨hplan, -, hread⟩ := h.jobs r job (by rw [hr]; rfl)
  obtain ⟨hsame, -⟩ := job.written_same now
  have hmine : (s.admins r).toInstall = none := by
    rw [hr]
    rfl
  have hself : (({ s with db } |>.setAdmin r (.installing (job.written now))).admins r).toInstall =
      some (job.written now) := by
    rw [toInstall_setAdmin, if_pos rfl]
    rfl
  by_cases hothers : s.Others r job.request.id
  · -- another request has written, and one of the two installs last
    obtain ⟨r', job', hne, hr', hid'⟩ := hothers
    refine Or.inl ⟨r, job.written now, hself, congrArg _ hsame.request,
      Or.inr ⟨r', job', hne, ?_, hid'⟩⟩
    rw [toInstall_setAdmin, if_neg hne]
    exact hr'
  · by_cases hstale : s.Stale job
    · refine Or.inl ⟨r, job.written now, hself, congrArg _ hsame.request, Or.inl ?_⟩
      unfold Stale
      rw [hsame.request, hsame.seen]
      exact hstale
    · refine Or.inr ?_
      have hcurrent : Agree dated job.current
          (s.db.providerSettings env.ring job.request.id) := by
        rcases h.tied _ hid with hdoomed | htied
        · obtain ⟨job', hr', -⟩ := hdoomed.alone hothers
          rw [hmine] at hr'
          cases hr'
        · rw [← current_of_fresh h.listed hread hstale]
          refine htied.settled fun r' job' hr' hid' => ?_
          refine hothers ⟨r', job', ?_, hr', hid'⟩
          rintro rfl
          rw [hmine] at hr'
          cases hr'
      obtain ⟨row, hsets, hagree⟩ := ProviderJob.write_agrees hring h.key hplan
        (h.created r job (by rw [hr]; rfl)) hpunctual hcurrent ha
      constructor
      · intro r' job' hr' hid'
        rw [toInstall_setAdmin] at hr'
        split_ifs at hr' with hrr
        · cases hr'
          show Agree dated _ ((db.findProvider _).map _)
          rw [hsets.row]
          exact hagree
        · exact absurd ⟨r', job', hrr, hr', hid'⟩ hothers
      · exact fun hnone => absurd (congrArg _ hsame.request) (hnone r (job.written now) hself)

/-- **A write that applied** keeps the invariant. -/
theorem RowsInv.write (h : s.RowsInv env dated) (hring : env.ring.active ∈ env.ring.keys)
    (hr : s.admins r = .writing job) (hpunctual : dated → job.Punctual now)
    (ha : s.db.applyAdmin env.ring (job.adminWrite now) = some (db, true)) :
    ({ s with db } |>.setAdmin r (.installing (job.written now))).RowsInv env dated := by
  obtain ⟨hsame, -⟩ := job.written_same now
  obtain ⟨row, hsets⟩ := ProviderJob.write_sets h.key ha
  have hready : (job.written now).Ready env s.registry :=
    (h.jobs r job (by rw [hr]; rfl)).same hsame ProviderJob.written_planned
  -- for another id, the same requests are about to install
  have hinst : ∀ id, job.request.id ≠ id → ∀ r' job', job'.request.id = id →
      ((({ s with db } |>.setAdmin r (.installing (job.written now))).admins r').toInstall =
        some job' ↔ (s.admins r').toInstall = some job') := by
    intro id hne r' job' hid'
    rw [toInstall_setAdmin]
    split_ifs with hrr
    · rw [hrr, hr]
      constructor
      · intro hjob
        cases hjob
        exact absurd ((congrArg _ hsame.request).symm.trans hid') hne
      · intro hjob
        cases hjob
    · rfl
  refine ⟨h.listed, hsets.key, ?_, ?_, ?_, h.last, ?_⟩
  · refine forall_setAdmin (P := fun _ stage => ∀ job, stage.job = some job →
      job.Ready env s.registry) ?_ fun r' _ => h.jobs r'
    intro job' hjob
    cases hjob
    exact hready
  · refine forall_setAdmin (P := fun _ stage => ∀ job, stage.toWrite = some job → job.Dated) ?_
      fun r' _ => h.created r'
    intro job' hjob
    cases hjob
  · intro id hid
    by_cases heq : job.request.id = id
    · subst heq
      exact h.write_tied hring hr hpunctual ha hid
    · rcases h.tied id hid with hdoomed | htied
      · exact Or.inl (hdoomed.congr rfl fun r' job' hr' hid' => (hinst id heq r' job' hid').2 hr')
      · exact Or.inr (htied.congr rfl (hsets.others id (Ne.symm heq)) (hinst id heq))
  · refine forall_setAdmin (P := fun _ stage => ∀ request status,
      stage = .answered request (.ok status) → request ∈ s.applied) ?_ fun r' _ => h.answered r'
    intro request status hanswer
    cases hanswer

/-- The state once a request has installed. -/
def installed (s : SignOn) (r : ℕ) (job : ProviderJob) : SignOn :=
  { s with
      registry := s.registry.install job.next job.client
      applied := s.applied ++ [job.request] } |>.setAdmin r
    (.answered job.request (.ok job.success))

theorem get_installed {id : String} (hid : job.next.id = job.request.id) :
    (s.installed r job).registry.get id = if id = job.request.id then
      some ⟨s.registry.cells.length, job.next⟩ else s.registry.get id := by
  rw [← hid]
  exact ProviderRegistry.get_install

theorem toInstall_installed {r' : ℕ} : ((s.installed r job).admins r').toInstall =
    if r' = r then none else (s.admins r').toInstall := toInstall_setAdmin

/-- Once a fresh install is made: the registry has what the row has, or what
    another request read is gone. -/
theorem RowsInv.install_tied (h : s.RowsInv env dated) (hr : s.admins r = .installing job)
    (hfresh : ¬ s.Stale job) (hid : job.request.id ≠ defaultProvider) :
    (s.installed r job).Doomed job.request.id ∨
      (s.installed r job).Tied env dated job.request.id := by
  have hready := h.jobs r job (by rw [hr]; rfl)
  have hmine : (s.admins r).toInstall = some job := by
    rw [hr]
    rfl
  by_cases hothers : s.Others r job.request.id
  · obtain ⟨r', job', hne, hr', hid'⟩ := hothers
    refine Or.inl ⟨r', job', ?_, hid', Or.inl ?_⟩
    · rw [toInstall_installed, if_neg hne]
      exact hr'
    · unfold Stale
      rw [hid', get_installed hready.id, if_pos rfl]
      intro hseen
      have hlt := (h.jobs r' job' (AdminStage.job_of_toInstall hr')).read.seen _ hseen.symm
      exact lt_irrefl _ hlt
  · refine Or.inr ⟨fun r' job' hr' hid' => ?_, fun _ => ?_⟩
    · rw [toInstall_installed] at hr'
      split_ifs at hr' with hrr
      exact absurd ⟨r', job', hrr, hr', hid'⟩ hothers
    · unfold ProviderRegistry.settings
      rw [get_installed hready.id, if_pos rfl]
      rcases h.tied _ hid with hdoomed | htied
      · obtain ⟨job', hr', hstale⟩ := hdoomed.alone hothers
        rw [hmine] at hr'
        cases hr'
        exact absurd hstale hfresh
      · exact htied.pending r job hmine rfl

/-- A fresh install changes a field only where its request sets it. -/
theorem RowsInv.install_last (h : s.RowsInv env dated) (hr : s.admins r = .installing job)
    (hfresh : ¬ s.Stale job) {id : String} {field : ProviderField} {value : FieldValue}
    (hlast : lastSet (s.applied ++ [job.request]) id field = some value) :
    ∃ settings, (s.installed r job).registry.settings id = some settings ∧
      settings.value field = value := by
  have hready := h.jobs r job (by rw [hr]; rfl)
  unfold ProviderRegistry.settings
  rw [get_installed hready.id]
  rw [lastSet_append] at hlast
  by_cases heq : id = job.request.id
  · rw [if_pos heq]
    rw [if_pos heq.symm] at hlast
    refine ⟨job.next, rfl, ?_⟩
    rcases hready.planned.value field with hset | ⟨hnone, t, hcur, hvalue⟩
    · rw [hset] at hlast
      exact Option.some.inj hlast
    · -- the field is as the request read it
      rw [hnone, Option.none_or] at hlast
      obtain ⟨t', ht', hvalue'⟩ := h.last id field value hlast
      rw [heq, current_of_fresh h.listed hready.read hfresh, hcur] at ht'
      cases ht'
      exact hvalue.trans hvalue'
  · rw [if_neg heq]
    rw [if_neg (Ne.symm heq), Option.none_or] at hlast
    exact h.last id field value hlast

/-- **An install that is fresh** keeps the invariant. -/
theorem RowsInv.install (h : s.RowsInv env dated) (hr : s.admins r = .installing job)
    (hfresh : ¬ s.Stale job) : (s.installed r job).RowsInv env dated := by
  have hready := h.jobs r job (by rw [hr]; rfl)
  have hinst : ∀ id, job.request.id ≠ id → ∀ r' job', job'.request.id = id →
      (((s.installed r job).admins r').toInstall = some job' ↔
        (s.admins r').toInstall = some job') := by
    intro id hne r' job' hid'
    rw [toInstall_installed]
    split_ifs with hrr
    · rw [hrr, hr]
      constructor
      · intro hjob
        cases hjob
      · intro hjob
        cases hjob
        exact absurd hid' hne
    · rfl
  refine ⟨h.listed.install, h.key, ?_, ?_, ?_, ?_, ?_⟩
  · refine forall_setAdmin (P := fun _ stage => ∀ job', stage.job = some job' →
      job'.Ready env (s.installed r job).registry) ?_ fun r' _ job' hr' => ?_
    · intro job' hjob
      cases hjob
    · exact (h.jobs r' job' hr').grow rfl
  · refine forall_setAdmin (P := fun _ stage => ∀ job, stage.toWrite = some job → job.Dated) ?_
      fun r' _ => h.created r'
    intro job' hjob
    cases hjob
  · intro id hid
    by_cases heq : job.request.id = id
    · subst heq
      exact h.install_tied hr hfresh hid
    · have hget : (s.installed r job).registry.get id = s.registry.get id := by
        rw [get_installed hready.id, if_neg (Ne.symm heq)]
      rcases h.tied id hid with hdoomed | htied
      · exact Or.inl (hdoomed.congr hget fun r' job' hr' hid' => (hinst id heq r' job' hid').2 hr')
      · exact Or.inr (htied.congr hget rfl (hinst id heq))
  · exact fun id field value hlast => h.install_last hr hfresh hlast
  · refine forall_setAdmin (P := fun _ stage => ∀ request status,
      stage = .answered request (.ok status) → request ∈ s.applied ++ [job.request]) ?_
      fun r' _ request status hr' => List.mem_append_left _ (h.answered r' request status hr')
    intro request status hanswer
    cases hanswer
    exact List.mem_append_right _ (List.mem_singleton_self _)

end

/-- **A fresh move keeps the invariant.** -/
theorem RowsInv.move (h : s.RowsInv env dated) (hring : env.ring.active ∈ env.ring.keys)
    (hm : Move env s op s') (hfresh : s.UpToDate op) (hpunctual : dated → s.Punctual op) :
    s'.RowsInv env dated := by
  cases hm with
  | loginArrive | arrive | readTxn | readEntry | redeem | discard | exchanged | checkSubject
  | custodyFailed | createSession => exact h.quiet rfl rfl rfl rfl rfl
  | loginRefused | loginBegun | connected =>
    exact h.quiet ProviderRegistry.entries_clientOf ProviderRegistry.cells_clientOf rfl rfl rfl
  | @takeCustody r c client upstreamSub tokens custodyId nextRefresh fails db hc hstage hins =>
    obtain ⟨rows, -, rfl⟩ := Option.map_eq_some_iff.1 hins
    exact h.quiet rfl rfl rfl rfl rfl
  | @adminArrive r request hidle =>
    obtain ⟨hundone, hwrite⟩ := request.arrive_stage env.parseUrl
    refine h.setAdmin (by rw [hidle]; rfl) hundone ?_ ?_
    · intro job hjob
      rw [ProviderRequest.arrive_job] at hjob
      cases hjob
    · intro job hjob
      rw [hwrite] at hjob
      cases hjob
  | @adminRead r request hstage =>
    obtain ⟨hundone, hdated⟩ := request.read_stage
    exact h.setAdmin (by rw [hstage]; rfl) hundone
      (fun job hjob => ProviderRequest.read_ready h.listed hjob) hdated
  | @adminNamespace r job fails hstage =>
    obtain ⟨hundone, hwrite⟩ := job.readNamespace_stage s.db fails
    refine h.setAdmin (by rw [hstage]; rfl) hundone ?_ ?_
    · intro job' hjob
      rw [ProviderJob.readNamespace_job hjob]
      exact h.jobs r job (by rw [hstage]; rfl)
    · intro job' hjob
      rw [hwrite] at hjob
      cases hjob
  | @adminConnect r job now discovery hstage =>
    obtain ⟨hundone, hdated⟩ := job.connect_stage discovery
    refine h.setAdmin (by rw [hstage]; rfl) hundone (fun job' hjob => ?_) hdated
    obtain ⟨hsame, hplan, -⟩ := ProviderJob.connect_job hjob
    exact (h.jobs r job (by rw [hstage]; rfl)).same hsame (hplan _)
  | @adminWrite r job now fails hstage =>
    cases hjob : (job.write env.ring s.db now fails).2.job with
    | none =>
      obtain ⟨hundone, hwrite⟩ := ProviderJob.write_refused hjob
      rw [ProviderJob.write_db hjob]
      refine h.setAdmin (by rw [hstage]; rfl) hundone (fun job' hjob' => ?_) fun job' hjob' => ?_
      · rw [hjob] at hjob'
        cases hjob'
      · rw [hwrite] at hjob'
        cases hjob'
    | some job' =>
      obtain ⟨rfl, hinst, ha⟩ := ProviderJob.write_job hjob
      rw [hinst]
      exact h.write hring hstage (fun hd => hpunctual hd job (by rw [hstage]; rfl)) ha
  | @adminInstall r job hstage => exact h.install hstage (hfresh job (by rw [hstage]; rfl))

/-! ## Runs -/

/-- A boot takes each provider from its row. -/
theorem boot_settings {db : Db} (hkey : UniqueOn (·.id) db.identityProvider)
    (config : Option (OidcConfig × Bool)) {id : String} (hid : id ≠ defaultProvider) :
    (boot env db config).registry.settings id = db.providerSettings env.ring id := by
  have hids : ((db.identityProvider.map (·.settings env.ring)).map (·.id)).Nodup := by
    rw [List.map_map]
    exact hkey
  have hrows : (db.identityProvider.map (·.settings env.ring)).find? (fun row => row.id = id) =
      db.providerSettings env.ring id := by
    rw [List.find?_map]
    rfl
  have hfold : (boot env db none).registry.settings id = db.providerSettings env.ring id := by
    refine (ProviderRegistry.foldl_install_settings _ hids id).trans ?_
    rw [hrows]
    exact Option.or_none
  cases config with
  | none => exact hfold
  | some config =>
    obtain ⟨config, tokenEndpoint⟩ := config
    rw [← hfold]
    exact congrArg (Option.map _) (ProviderRegistry.get_install_of_ne hid)

theorem boot_rowsInv {db : Db} (hkey : UniqueOn (·.id) db.identityProvider)
    (config : Option (OidcConfig × Bool)) : (boot env db config).RowsInv env dated where
  listed := (ProviderRegistry.boot_spec _ config).1.listed
  key := hkey
  jobs := fun r job hjob => by cases hjob
  created := fun r job hjob => by cases hjob
  tied := by
    intro id hid
    refine Or.inr ⟨fun r job hr _ => ?_, fun _ => ?_⟩
    · cases hr
    · exact Agree.of_eq (boot_settings hkey config hid)
  last := fun id field value hlast => by cases hlast
  answered := fun r request status hr => by cases hr

theorem run_rowsInv {db : Db} (hring : env.ring.active ∈ env.ring.keys)
    (hkey : UniqueOn (·.id) db.identityProvider) (config : Option (OidcConfig × Bool))
    {ops : List SignOnOp} (hfresh : Along (step env) UpToDate (boot env db config) ops)
    (hpunctual : dated → Along (step env) Punctual (boot env db config) ops) :
    (run (step env) (boot env db config) ops).RowsInv env dated := by
  have hstep : ∀ (s : SignOn) op, s.RowsInv env dated →
      s.UpToDate op ∧ (dated → s.Punctual op) → (s.step env op).RowsInv env dated := by
    rintro s op h ⟨hf, hp⟩
    rcases step_move op with hsame | hm
    · rw [hsame]
      exact h
    · exact h.move hring hm hf hp
  exact along_invariant hstep (boot_rowsInv hkey config) (hfresh.and hpunctual)

/-- Once every request has its answer. -/
theorem RowsInv.finished (h : s.RowsInv env dated) (hdone : ∀ r, (s.admins r).finished = true)
    {id : String} (hid : id ≠ defaultProvider) :
    Agree dated (s.registry.settings id) (s.db.providerSettings env.ring id) := by
  have hnone : ∀ r job, (s.admins r).toInstall ≠ some job := by
    intro r job hr
    rw [AdminStage.toInstall_of_finished (hdone r)] at hr
    cases hr
  rcases h.tied id hid with hdoomed | htied
  · obtain ⟨r, job, hr, -⟩ := hdoomed
    exact absurd hr (hnone r job)
  · exact htied.settled fun r job hr => absurd hr (hnone r job)

theorem RowsInv.noneLost (h : s.RowsInv env dated) : s.NoneLost := by
  intro r request status hr field hset
  obtain ⟨value, hlast⟩ := Option.isSome_iff_exists.1 (lastSet_isSome (h.answered r _ _ hr) hset)
  obtain ⟨settings, hsettings, hvalue⟩ := h.last _ field value hlast
  exact ⟨value, settings, hlast, hsettings, hvalue⟩

end SignOn

/-- **The registry agrees with the store and loses no update**, in every run whose
    installs are fresh.  A tombstone's date is left behind by a removal, unless it
    is made in the second its provider was last changed in. -/
theorem registry_keeps_updates (env : SignOnEnv) (hring : env.ring.active ∈ env.ring.keys) (db : Db)
    (hkey : UniqueOn (·.id) db.identityProvider) (config : Option (OidcConfig × Bool))
    (ops : List SignOnOp) (hfresh : Along (step env) UpToDate (boot env db config) ops)
    (hdone : ∀ r, ((run (step env) (boot env db config) ops).admins r).finished = true) :
    (∀ id ≠ defaultProvider,
      ((run (step env) (boot env db config) ops).registry.settings id).map (·.undated) =
        ((run (step env) (boot env db config) ops).db.providerSettings env.ring id).map
          (·.undated)) ∧
    (run (step env) (boot env db config) ops).NoneLost ∧
    (Along (step env) Punctual (boot env db config) ops → ∀ id ≠ defaultProvider,
      (run (step env) (boot env db config) ops).registry.settings id =
        (run (step env) (boot env db config) ops).db.providerSettings env.ring id) := by
  have h : (run (step env) (boot env db config) ops).RowsInv env False :=
    run_rowsInv hring hkey config hfresh False.elim
  refine ⟨fun id hid => (h.finished hdone hid).undated, h.noneLost, fun hpunctual id hid => ?_⟩
  have hdated : (run (step env) (boot env db config) ops).RowsInv env True :=
    run_rowsInv hring hkey config hfresh fun _ => hpunctual
  exact (hdated.finished hdone hid).same trivial

/-! ## Two updates at once -/

namespace TwoUpdates

def ring : KeyRing := ⟨1, [1]⟩

def env : SignOnEnv := ⟨ring, fun _ => .error "relative URL without a base"⟩

def row : ProviderRecord :=
  ⟨"p", "generic", "P", "https://p.example", "c", ring.seal [120] (providerSecretContext "p"),
    ["openid"], true, ⟨0⟩, ⟨0⟩, none⟩

def db : Db := { Db.fresh ⟨0⟩ with identityProvider := [row] }

/-- The steps of admin requests. -/
def ops (steps : List (ℕ × AdminOp)) : List SignOnOp := steps.map fun p => .admin p.1 p.2

def rename : AdminOp := .arrive (.update "p" { displayName := some "Q" })

def rescope : AdminOp := .arrive (.update "p" { scopes := some ["openid", "email"] })

/-- Both read, and the one that writes first installs last. -/
def crossed : List (ℕ × AdminOp) :=
  [(0, rename), (0, .read), (1, rescope), (1, .read), (0, .connect ⟨1⟩ (.ok true)),
   (0, .write ⟨1⟩ false), (1, .connect ⟨1⟩ (.ok true)), (1, .write ⟨2⟩ false), (1, .install),
   (0, .install)]

/-- One after the other, and a removal. -/
def inTurn : List (ℕ × AdminOp) :=
  [(0, rename), (0, .read), (0, .connect ⟨1⟩ (.ok true)), (0, .write ⟨1⟩ false), (0, .install),
   (1, rescope), (1, .read), (1, .connect ⟨1⟩ (.ok true)), (1, .write ⟨2⟩ false), (1, .install),
   (2, .arrive (.remove "p")), (2, .read), (2, .write ⟨2⟩ false), (2, .install)]

end TwoUpdates

open TwoUpdates

/-- A request that takes no step stays where it is. -/
theorem run_admins_other {env : SignOnEnv} {s : SignOn} {steps : List (ℕ × AdminOp)} {r : ℕ}
    (h : ∀ p ∈ steps, p.1 ≠ r) : (run (step env) s (ops steps)).admins r = s.admins r := by
  induction steps generalizing s with
  | nil => rfl
  | cons p steps ih =>
    have hne : r ≠ p.1 := (h p (List.mem_cons_self ..)).symm
    have hstep : (s.step env (.admin p.1 p.2)).admins r = s.admins r := by
      show (s.stepAdmin env p.1 p.2).admins r = s.admins r
      unfold stepAdmin
      split <;> first | rfl | exact Function.update_of_ne hne ..
    exact (ih fun q hq => h q (List.mem_cons_of_mem _ hq)).trans hstep

/-- All are finished where those that took a step are. -/
theorem ops_finished (env : SignOnEnv) (db : Db) (n : ℕ) {steps : List (ℕ × AdminOp)}
    (hlt : ∀ p ∈ steps, p.1 < n)
    (hdone : ∀ r < n, ((run (step env) (boot env db none) (ops steps)).admins r).finished = true)
    (r : ℕ) : ((run (step env) (boot env db none) (ops steps)).admins r).finished = true := by
  by_cases hr : r < n
  · exact hdone r hr
  · have hother : ∀ p ∈ steps, p.1 ≠ r := fun p hp heq => hr (heq ▸ hlt p hp)
    rw [run_admins_other hother]
    rfl

/-- **Each update loses the other**: the row has the one, and the registry the
    other. -/
theorem registry_loses_updates :
    ¬ ∀ (env : SignOnEnv) (db : Db) (config : Option (OidcConfig × Bool)) (ops : List SignOnOp),
      env.ring.active ∈ env.ring.keys → UniqueOn (·.id) db.identityProvider →
      (∀ r, ((run (step env) (boot env db config) ops).admins r).finished = true) →
      (∀ id ≠ defaultProvider, (run (step env) (boot env db config) ops).registry.settings id =
        (run (step env) (boot env db config) ops).db.providerSettings env.ring id) ∧
      (run (step env) (boot env db config) ops).NoneLost := by
  intro h
  have hdone := @ops_finished env db 2 crossed (by decide) (by decide +kernel)
  obtain ⟨hagree, -⟩ := h env db none (ops crossed) (by decide) (by unfold UniqueOn; decide) hdone
  have hnames := congrArg (Option.map (·.displayName)) (hagree "p" (by decide))
  have hregistry : ((run (step env) (boot env db none) (ops crossed)).registry.settings "p").map
      (·.displayName) = some "Q" := by decide +kernel
  have hrow : ((run (step env) (boot env db none) (ops crossed)).db.providerSettings env.ring
      "p").map (·.displayName) = some "P" := by decide +kernel
  rw [hregistry, hrow] at hnames
  exact absurd hnames (by decide)

/-- One after the other, both are kept. -/
theorem registry_keeps_updates_in_turn :
    ((run (step env) (boot env db none) (ops inTurn)).registry.settings "p").map
      (fun settings => (settings.displayName, settings.scopes, settings.enabled)) =
        some ("Q", ["openid", "email"], false) ∧
    (run (step env) (boot env db none) (ops inTurn)).NoneLost := by
  refine ⟨by decide +kernel, ?_⟩
  have hdone := @ops_finished env db 3 inTurn (by decide) (by decide +kernel)
  exact (registry_keeps_updates env (by decide) db (by unfold UniqueOn; decide) none (ops inTurn)
    (by decide +kernel) hdone).2.1

end SessionBroker
