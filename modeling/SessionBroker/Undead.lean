/-
  Upstream death across a restart.

  * `Abandoned`: after a boot that finds a custody dead, nothing schedules it
    again, and its sessions stay as the boot rebuilt them;
  * `death_survives_iff`: what a dead grant means for its sessions holds after
    every restart that follows iff it already did of the rows alone.
-/
import SessionBroker.Grants
import SessionBroker.Revoked
import SessionBroker.Restart

namespace SessionBroker

open Transaction Runs

/-- The custody an effect is about. -/
def WorkerAction.custody : WorkerAction → CustodyId
  | setCustodyStatus custody _ => custody
  | persistFailure custody _ _ => custody
  | tombstoneByCustody custody _ => custody

theorem KeepaliveWorker.actions_custody {policy : KeepalivePolicy} {custody : CustodyId}
    {outcome : RefreshOutcome} {now : Timestamp} {status : Option CustodyStatus}
    {action : WorkerAction} (h : action ∈ actions policy custody outcome now status) :
    action.custody = custody := by
  rcases List.mem_append.1 h with h | h
  · split at h
    · cases h
    · rcases List.mem_cons.1 h with rfl | h
      · rfl
      · split_ifs at h
        · cases h
        · rw [List.mem_singleton.1 h]
          rfl
  · split_ifs at h
    · rw [List.mem_singleton.1 h]
      rfl
    · cases h

namespace Broker

/-! ## A custody found dead at boot -/

/-- Nothing is to become of the custody but what the map `m` holds of it. -/
structure Abandoned (m : SessionMap) (custody : CustodyId) (s : Broker) : Prop where
  stored : s.db.HasCustody custody
  unscheduled : s.worker.scheduler.statusOf custody = none
  unrequested : ∀ r ∈ s.requests, r.custody ≠ custody
  login : ∀ stage, s.login custody = some stage → ∃ ack, stage = .written ack ∧ ack ∉ s.durable
  todo : ∀ action ∈ s.worker.todo, action.custody ≠ custody
  sessions : ∀ sid e, s.sessions.sessions sid = some e → e.custody = custody →
    m.sessions sid = some e
  policy : s.sessions.policy = m.policy

variable {ring : KeyRing} {m : SessionMap} {custody : CustodyId} {s : Broker}

theorem Abandoned.setWorker {w : KeepaliveWorker} (h : s.Abandoned m custody)
    (hk : s.worker.Keeps w) (ht : ∀ action ∈ w.todo, action.custody ≠ custody) :
    ({ s with worker := w } : Broker).Abandoned m custody :=
  { h with
    unscheduled := by
      rw [← Option.not_isSome_iff_eq_none, (hk custody).1, h.unscheduled]
      simp
    todo := ht }

/-- An effect on another custody. -/
theorem Abandoned.perform {action : WorkerAction} (h : s.Abandoned m custody)
    (hc : action.custody ≠ custody) (order : List Sid) :
    (s.perform order action).Abandoned m custody := by
  cases action with
  | setCustodyStatus custody' status =>
    refine { h with
      sessions := fun sid e he hcustody => ?_
      policy := (SessionMap.setCustodyStatus_index s.sessions order custody' status).2.trans h.policy }
    obtain ⟨e₀, he₀, rfl⟩ := Option.map_eq_some_iff.1
      ((SessionMap.setCustodyStatus_sessions s.sessions order custody' status sid).symm.trans he)
    split_ifs at hcustody ⊢ with hv
    · exact absurd (hv.2.symm.trans hcustody) hc
    · exact h.sessions sid e₀ he₀ hcustody
  | persistFailure custody' status now =>
    simp only [Broker.perform]
    split
    · exact h
    · exact { h with }
  | tombstoneByCustody custody' now =>
    refine { h with
      sessions := fun sid e he hcustody => ?_
      policy := (SessionMap.tombstoneByCustody_index s.sessions order custody' now).2.trans h.policy }
    obtain ⟨e₀, he₀, rfl⟩ := Option.map_eq_some_iff.1
      ((SessionMap.tombstoneByCustody_sessions s.sessions order custody' now sid).symm.trans he)
    split_ifs at hcustody ⊢ with hv
    · exact absurd (hv.2.1.symm.trans hcustody) hc
    · exact h.sessions sid e₀ he₀ hcustody

/-- **A step leaves it abandoned.** -/
theorem Abandoned.step (h : s.Abandoned m custody) (hs : s.Coherent) (op : BrokerOp) :
    (s.step ring op).Abandoned m custody := by
  -- what is in flight is scheduled
  have hflight : custody ∉ s.worker.inflight := by
    intro hin
    obtain ⟨status, hst, -⟩ := hs.worker.live custody (List.mem_append_left _ hin)
    rw [h.unscheduled] at hst
    cases hst
  cases op with
  | takeCustody row =>
    simp only [Broker.step]
    split_ifs with hl
    · refine { h with login := fun stage hst => ?_ }
      dsimp only at hst
      by_cases hc : custody = row.custodyId
      · rw [hc, Function.update_self, Option.some.injEq] at hst
        exact ⟨_, hst.symm, fun hd => absurd (hs.durable _ hd) (lt_irrefl _)⟩
      · rw [Function.update_of_ne hc] at hst
        exact h.login stage hst
    · exact h
  | schedule custody' issuedAt lifetimeSecs =>
    simp only [Broker.step]
    split
    · rename_i ack hl
      split_ifs with hd
      · have hne : custody ≠ custody' := by
          rintro rfl
          obtain ⟨ack', hack, hnot⟩ := h.login _ hl
          cases hack
          exact hnot hd
        refine { h with
          unrequested := fun r hr => ?_
          login := fun stage hst => ?_ }
        · rcases List.mem_append.1 hr with hr | hr
          · exact h.unrequested r hr
          · rw [List.mem_singleton.1 hr]
            exact hne.symm
        · dsimp only at hst
          rw [Function.update_of_ne hne] at hst
          exact h.login stage hst
      · exact h
    · exact h
  | create sid custody' sub token now =>
    simp only [Broker.step]
    split_ifs with hl
    · have hne : custody ≠ custody' := by
        rintro rfl
        obtain ⟨ack, hack, -⟩ := h.login _ hl
        cases hack
      refine { h with
        login := fun stage hst => ?_
        sessions := ?_ }
      · dsimp only at hst
        rw [Function.update_of_ne hne] at hst
        exact h.login stage hst
      · refine forall_update h.sessions fun e he hc => ?_
        cases he
        exact absurd hc.symm hne
    · exact h
  | accept draw =>
    simp only [Broker.step]
    split_ifs with hidle
    · split
      · exact h
      · rename_i r requests hr
        have hne : custody ≠ r.custody := (h.unrequested r (hr ▸ List.mem_cons_self ..)).symm
        exact { h with
          unscheduled := by
            rw [Scheduler.insert, Scheduler.statusOf_put, if_neg hne]
            exact h.unscheduled
          unrequested := fun r' hr' => h.unrequested r' (hr ▸ List.mem_cons_of_mem _ hr') }
    · exact h
  | tick now =>
    simp only [Broker.step]
    split_ifs with hidle
    · exact h.setWorker (KeepaliveWorker.tick_sane hidle now).2 h.todo
    · exact h
  | dispatch =>
    simp only [Broker.step]
    split_ifs with hi
    · refine h.setWorker (hs.worker.dispatch hi.1).2 ?_
      unfold KeepaliveWorker.dispatch
      split <;> exact h.todo
    · exact h
  | renew custody' refreshTok accessTok accessExp nextRefresh now =>
    simp only [Broker.step]
    split_ifs
    · exact { h with }
    · exact h
  | join custody' outcome now draw =>
    simp only [Broker.step]
    split_ifs with hj
    · refine h.setWorker (hs.worker.join hj.1 hj.2).2 fun action ha hc => ?_
      cases outcome with
      | none => exact h.todo action ha hc
      | some outcome =>
        have hown := KeepaliveWorker.actions_custody ha
        exact hflight (hc ▸ hown ▸ hj.1)
    · exact h
  | act order =>
    simp only [Broker.step]
    split
    · exact h
    · rename_i action todo ht
      have hpop : ({ s with worker := { s.worker with todo } } : Broker).Abandoned m custody :=
        h.setWorker (fun _ => ⟨Iff.rfl, id⟩) fun action ha =>
          h.todo action (ht ▸ List.mem_cons_of_mem _ ha)
      exact hpop.perform (h.todo action (ht ▸ List.mem_cons_self ..)) order
  | commit count beginFails commitFails =>
    rcases commit_cases ring s count beginFails commitFails with heq | ⟨db, acks, ha, hacks, heq⟩
    · exact heq ▸ { h with }
    · rw [heq]
      refine { h with
        stored := h.stored.applyAll (fun cmd hc => hs.ordinary cmd (List.mem_of_mem_take hc)) ha
        login := fun stage hst => ?_ }
      obtain ⟨ack, rfl, hnot⟩ := h.login stage hst
      refine ⟨ack, rfl, fun hd => ?_⟩
      rcases List.mem_append.1 hd with hd | hd
      · exact hnot hd
      · -- a second row for the custody is refused
        obtain ⟨write, hw⟩ := hacks ack hd
        exact (hs.inserted hst ha hw).1 h.stored

theorem Abandoned.run (ring : KeyRing) (h : s.Abandoned m custody) (hs : s.Coherent)
    (ops : List BrokerOp) :
    (run (Broker.step ring) s ops).Abandoned m custody := by
  induction ops generalizing s with
  | nil => exact h
  | cons op ops ih => exact ih (h.step hs op) (hs.step op)

/-- A boot abandons what it finds dead. -/
theorem abandoned_boot (policy : SessionPolicy) (keepalive : KeepalivePolicy) {db : Db}
    (h : db.DeadCustody custody) (now : Timestamp) :
    (boot policy keepalive db now).Abandoned (SessionBroker.restart policy db.tables) custody where
  stored := h.1
  unscheduled := by
    cases hst : (boot policy keepalive db now).worker.scheduler.statusOf custody with
    | none => rfl
    | some status =>
      obtain ⟨hne, c, hc, hcustody, hstatus⟩ := statusOf_restore hst
      exact absurd (hstatus.symm.trans (h.2 c hc hcustody)) hne
  unrequested := fun _ hr => absurd hr List.not_mem_nil
  login := fun _ hl => by cases hl
  todo := fun _ ha => absurd ha List.not_mem_nil
  sessions := fun _ _ he _ => he
  policy := rfl

/-! ## What a dead grant means -/

/-- What a dead custody is to mean for a presented hash, from `now` on. -/
def Upholds (s : Broker) (custody : CustodyId) (now : Timestamp) : Prop :=
  ∀ hash, s.sessions.custodyFor hash = some custody →
    match s.sessions.policy.onUpstreamRevoked with
    | .kill => ∀ at_, now ≤ at_ → (s.sessions.resolve hash at_).authenticates = false
    | .degrade => ∀ sm, s.sessions.metaFor hash = some sm → sm.custody = .dead

end Broker

/-- No generation of a session stored alive with the custody means anything at
    `now`: it is over under the kill policy, there is none under degrade. -/
def Db.Lapsed (db : Db) (policy : SessionPolicy) (custody : CustodyId) (now : Timestamp) : Prop :=
  ∀ r ∈ db.session, r.row.status = .alive → r.row.custodyId = custody →
    ∀ g ∈ db.tables.gensOf r.row.sid,
      match policy.onUpstreamRevoked with
      | .kill => r.row.absoluteExp ≤ now ∨ r.row.idleExp ≤ now ∨
          g.resourceValidUntil policy.graceSecs ≤ now
      | .degrade => False

namespace Broker

variable {ring : KeyRing} {custody : CustodyId} {s : Broker}

/-- A rebuilt session is never over for its custody. -/
theorem restoredEntry_expiry (row : SessionRow) (gens : List Generation) (now : Timestamp)
    (policy : SessionPolicy) : (row.restoredEntry gens).sessionExpiry now policy = none ↔
      ¬ row.absoluteExp ≤ now ∧ ¬ row.idleExp ≤ now := by
  simp only [SessionEntry.sessionExpiry, SessionRow.restoredEntry]
  split_ifs <;> simp_all

/-- What an abandoned custody still means is what its rows meant. -/
theorem Abandoned.upholds {db : Db} {policy : SessionPolicy} {now : Timestamp}
    (h : s.Abandoned (SessionBroker.restart policy db.tables) custody) (hk : db.tables.Keyed)
    (hl : db.Lapsed policy custody now) : s.Upholds custody now := by
  intro hash hcustody
  obtain ⟨sid, hi, he⟩ := Option.bind_eq_some_iff.1 hcustody
  obtain ⟨e, he, hc⟩ := Option.map_eq_some_iff.1 he
  have hrebuilt := h.sessions sid e he hc
  obtain ⟨r, hr, rfl, ha, hne, rfl⟩ := (Tables.restart_sessions hk policy).1 hrebuilt
  have hpolicy : s.sessions.policy = policy :=
    h.policy.trans (Tables.restart_holds hk policy).policy
  have hlapsed := hl r hr ha hc
  rw [hpolicy]
  cases hp : policy.onUpstreamRevoked with
  | kill =>
    intro at_ hat
    rw [Bool.eq_false_iff]
    intro hauth
    simp only [SessionMap.resolve, hi, he, hpolicy] at hauth
    obtain ⟨hx, g, hg, -, hv⟩ :=
      (SessionEntry.classify_authenticates (hk.restart_nodup policy _ _ hrebuilt)).1 hauth
    rw [restoredEntry_expiry, not_le, not_le] at hx
    have hover := hlapsed g (Tables.mem_bootGens.1 hg)
    rw [hp] at hover
    rcases hover with hover | hover | hover
    · exact absurd (hover.trans hat) (not_le.2 hx.1)
    · exact absurd (hover.trans hat) (not_le.2 hx.2)
    · exact absurd (hover.trans hat) (not_le.2 hv)
  | degrade =>
    obtain ⟨row, hrow⟩ := List.exists_mem_of_ne_nil _ hne
    have hover := hlapsed row.toGeneration (List.mem_map_of_mem hrow)
    rw [hp] at hover
    exact hover.elim

/-- What the rows still mean shows at the boot. -/
theorem lapsed_of_upholds {policy : SessionPolicy} {keepalive : KeepalivePolicy} {db : Db}
    {now : Timestamp} (hk : db.tables.Keyed)
    (h : (boot policy keepalive db now).Upholds custody now) : db.Lapsed policy custody now := by
  intro r hr ha hc g hg
  have hheld := Tables.restart_holds hk policy
  have hrows : db.tables.rowsOf r.row.sid ≠ [] := by
    intro hx
    rw [Tables.gensOf, hx] at hg
    cases hg
  have he := (Tables.restart_sessions hk policy).2 ⟨r, hr, rfl, ha, hrows, rfl⟩
  have hmem := Tables.mem_bootGens.2 hg
  have hi : (SessionBroker.restart policy db.tables).index g.tokenHash = some r.row.sid :=
    (hheld.index.mem he).2 (List.mem_append_left _ (List.mem_map_of_mem hmem))
  have hmeans := h g.tokenHash (by
    simp only [boot, SessionMap.custodyFor, hi, he, Option.bind_some, Option.map_some]
    exact congrArg some hc)
  have hpolicy : (boot policy keepalive db now).sessions.policy = policy := hheld.policy
  rw [hpolicy] at hmeans
  cases hp : policy.onUpstreamRevoked with
  | kill =>
    rw [hp] at hmeans
    by_contra hlive
    rw [not_or, not_or] at hlive
    have hauth := (hheld.index.resolve_authenticates (hk.restart_nodup policy)).2
      ⟨r.row.sid, _, he, by rw [hheld.policy, restoredEntry_expiry]; exact ⟨hlive.1, hlive.2.1⟩,
        g, hmem, rfl, by rw [hheld.policy]; exact not_le.1 hlive.2.2⟩
    exact Bool.false_ne_true ((hmeans now le_rfl).symm.trans hauth)
  | degrade =>
    rw [hp] at hmeans
    have hmeta := hmeans _ (by
      simp only [boot, SessionMap.metaFor, hi, he, Option.bind_some, Option.map_some]
      rfl)
    cases hmeta

theorem perform_policy (s : Broker) (order : List Sid) (action : WorkerAction) :
    (s.perform order action).sessions.policy = s.sessions.policy := by
  cases action with
  | setCustodyStatus custody status =>
    exact (SessionMap.setCustodyStatus_index s.sessions order custody status).2
  | persistFailure custody status now => rw [perform_persistFailure]
  | tombstoneByCustody custody now =>
    exact (SessionMap.tombstoneByCustody_index s.sessions order custody now).2

theorem step_sessions_policy (ring : KeyRing) (s : Broker) (op : BrokerOp) :
    (s.step ring op).sessions.policy = s.sessions.policy := by
  cases op with
  | schedule custody issuedAt lifetimeSecs =>
    simp only [Broker.step]
    split
    · split_ifs <;> rfl
    · rfl
  | accept draw =>
    simp only [Broker.step]
    split_ifs
    · split <;> rfl
    · rfl
  | act order =>
    simp only [Broker.step]
    split
    · rfl
    · rw [perform_policy]
  | commit count beginFails commitFails => rfl
  | _ =>
    simp only [Broker.step]
    split_ifs <;> rfl

theorem run_sessions_policy (ring : KeyRing) (s : Broker) (ops : List BrokerOp) :
    (run (Broker.step ring) s ops).sessions.policy = s.sessions.policy := by
  induction ops generalizing s with
  | nil => rfl
  | cons op ops ih => exact (ih _).trans (step_sessions_policy ring s op)

/-- **Upstream death across a restart.**  Take any run from a boot in which the
    writer has applied the dead `Failure` of a custody, and a restart at
    `later`: that the custody's sessions do not authenticate under kill, and
    show it dead under degrade, holds after every run that follows iff no
    generation of a session still stored alive meant anything by then. -/
theorem death_survives_iff (ring : KeyRing) (policy : SessionPolicy) (keepalive : KeepalivePolicy)
    (db : Db) (hdb : db.Integrity) (now : Timestamp) (ops : List BrokerOp) (custody : CustodyId)
    (hdead : ∃ failCount nextRefresh at_ ack,
      .custody (.failure custody .dead failCount nextRefresh at_) ack ∈
        (run (Broker.step ring) (boot policy keepalive db now) ops).applied)
    (later : Timestamp) :
    let s := run (Broker.step ring) (boot policy keepalive db now) ops
    (∀ ops', (run (Broker.step ring) (s.restart later) ops').Upholds custody later) ↔
      s.db.Lapsed policy custody later := by
  intro s
  have hs : s.Coherent := (coherent_boot policy keepalive hdb now).run ring ops
  have hpolicy : s.sessions.policy = policy :=
    (run_sessions_policy ring _ ops).trans (Tables.restart_holds hdb.keyed policy).policy
  obtain ⟨failCount, nextRefresh, at_, ack, hm⟩ := hdead
  have hgone : s.db.DeadCustody custody := hs.gone custody ⟨_, hm, rfl⟩
  constructor
  · intro h
    have hboot := lapsed_of_upholds hs.integrity.keyed (h [])
    rwa [hpolicy] at hboot
  · intro hl ops'
    have hboot : (s.restart later).Coherent := coherent_boot _ _ hs.integrity later
    have habandoned := (abandoned_boot s.sessions.policy s.worker.scheduler.policy hgone later).run
      ring hboot ops'
    exact habandoned.upholds hs.integrity.keyed (hpolicy ▸ hl)

/-- A login, whose grant dies a second later. -/
def deadGrant (count : ℕ) : List BrokerOp :=
  [.takeCustody ⟨⟨"c"⟩, "alice", [], [], ⟨60⟩, none, .ok, ⟨60⟩, 0, ⟨0⟩, "p"⟩,
    .commit 1 false false, .schedule ⟨"c"⟩ ⟨0⟩ 1, .create ⟨"s"⟩ ⟨"c"⟩ "alice" .sample1 ⟨0⟩,
    .accept plainDraw, .tick ⟨1⟩, .dispatch, .join ⟨"c"⟩ (some .permanent) ⟨1⟩ plainDraw,
    .act [⟨"s"⟩], .act [⟨"s"⟩], .act [⟨"s"⟩], .commit count false false]

/-- Under kill, a crash between the `Failure` and the kill: the session
    authenticates after the restart.  Under degrade, any restart: its meta
    reports a custody that is well. -/
theorem death_forgotten :
    let kill := run (Broker.step ⟨1, [1]⟩) (boot {} {} (.fresh ⟨0⟩) ⟨0⟩) (deadGrant 3)
    let degrade := run (Broker.step ⟨1, [1]⟩)
      (boot { onUpstreamRevoked := .degrade } { onUpstreamRevoked := .degrade } (.fresh ⟨0⟩) ⟨0⟩)
      (deadGrant 9)
    let failure := Command.custody (.failure ⟨"c"⟩ .dead 0 ⟨1⟩ ⟨1⟩) 1
    failure ∈ kill.applied ∧ ¬ (kill.restart ⟨2⟩).Upholds ⟨"c"⟩ ⟨2⟩ ∧
      failure ∈ degrade.applied ∧ degrade.queue = [] ∧ ¬ (degrade.restart ⟨2⟩).Upholds ⟨"c"⟩ ⟨2⟩ := by
  intro kill degrade failure
  refine ⟨by decide, fun h => ?_, by decide, by decide, fun h => ?_⟩
  · have hauth : ((kill.restart ⟨2⟩).sessions.resolve SessionToken.sample1.hash ⟨2⟩).authenticates =
        true := by decide
    exact Bool.false_ne_true ((h SessionToken.sample1.hash (by decide) ⟨2⟩ le_rfl).symm.trans hauth)
  · have hmeta : ((degrade.restart ⟨2⟩).sessions.metaFor SessionToken.sample1.hash).map (·.custody) =
        some .ok := by decide
    obtain ⟨sm, hsm, hok⟩ := Option.map_eq_some_iff.1 hmeta
    have hdead : sm.custody = .dead := h SessionToken.sample1.hash (by decide) sm hsm
    rw [hok] at hdead
    cases hdead

/-- At a concrete run: the kill is stored too. -/
theorem death_survives_iff_killed :
    let s := run (Broker.step ⟨1, [1]⟩) (boot {} {} (.fresh ⟨0⟩) ⟨0⟩) (deadGrant 4)
    s.db.session.length = 1 ∧ ∀ ops', (run (Broker.step ⟨1, [1]⟩) (s.restart ⟨2⟩) ops').Upholds ⟨"c"⟩ ⟨2⟩ := by
  intro s
  have hkilled : ∀ r ∈ s.db.session, r.row.status ≠ .alive := by decide
  refine ⟨by decide, ?_⟩
  exact (death_survives_iff ⟨1, [1]⟩ {} {} (.fresh ⟨0⟩) (Db.integrity_fresh ⟨0⟩) ⟨0⟩ (deadGrant 4)
    ⟨"c"⟩ ⟨0, ⟨1⟩, ⟨1⟩, 1, by decide⟩ ⟨2⟩).2 fun r hr ha => absurd ha (hkilled r hr)

end Broker

end SessionBroker
