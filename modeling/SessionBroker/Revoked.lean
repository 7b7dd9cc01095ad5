/-
  Logins against upstream revocation, under the kill policy.

  * `tombstoneByCustody_sessions` and `setCustodyStatus_sessions` are the two
    scans, session by session;
  * `Covered`: an alive session whose custody the scheduler holds dead is one
    that the worker is about to kill;
  * `no_login_escapes`: in every run in which no login creates its session
    after the scan for its custody, no alive session is left with a dead
    custody.
-/
import SessionBroker.Keepalive
import SessionBroker.Ops

namespace SessionBroker

open Runs

/-! ## The scans -/

namespace SessionMap

variable {m : SessionMap} {sid : Sid}

/-- `tombstone_session_with_reason`, session by session. -/
theorem tombstone_sessions (m : SessionMap) (sid : Sid) (now : Timestamp) (reason : KillReason)
    (sid' : Sid) : (m.tombstoneSessionWithReason sid now reason).1.sessions sid' =
      (m.sessions sid').map fun e => if sid' = sid ∧ e.status = .alive then e.killed now else e := by
  unfold tombstoneSessionWithReason
  cases he : m.sessions sid with
  | none =>
    cases he' : m.sessions sid' with
    | none => simp
    | some e =>
      have hne : sid' ≠ sid := by
        rintro rfl
        rw [he] at he'
        cases he'
      simp [hne]
  | some e =>
    dsimp only
    split_ifs with ha
    · by_cases hs : sid' = sid
      · subst hs
        simp [setEntry, persist, announce, he, ha, SessionEntry.killed]
      · simp [setEntry, persist, announce, hs]
    · cases he' : m.sessions sid' with
      | none => simp
      | some e' =>
        have hno : ¬ (sid' = sid ∧ e'.status = .alive) := by
          rintro ⟨rfl, ha'⟩
          rw [he] at he'
          cases he'
          exact ha ha'
        simp [hno]

theorem tombstone_index (m : SessionMap) (sid : Sid) (now : Timestamp) (reason : KillReason) :
    (m.tombstoneSessionWithReason sid now reason).1.index = m.index ∧
      (m.tombstoneSessionWithReason sid now reason).1.policy = m.policy := by
  unfold tombstoneSessionWithReason
  split
  · exact ⟨rfl, rfl⟩
  · split_ifs <;> exact ⟨rfl, rfl⟩

/-- **`tombstone_by_custody`**, session by session. -/
theorem tombstoneByCustody_sessions (m : SessionMap) (order : List Sid) (custody : CustodyId)
    (now : Timestamp) (sid : Sid) : (m.tombstoneByCustody order custody now).1.sessions sid =
      (m.sessions sid).map fun e =>
        if sid ∈ order ∧ e.custody = custody ∧ e.status = .alive then e.killed now else e := by
  have hfold : ∀ (sids : List Sid) (r : SessionMap × ℕ), (sids.foldl (fun r sid =>
      let killed := r.1.tombstoneSessionWithReason sid now .upstreamRevoked
      (killed.1, if killed.2 then r.2 + 1 else r.2)) r).1.sessions sid =
      (r.1.sessions sid).map fun e => if sid ∈ sids ∧ e.status = .alive then e.killed now else e := by
    intro sids
    induction sids with
    | nil => intro r; simp
    | cons sid' sids ih =>
      intro r
      rw [List.foldl_cons, ih]
      dsimp only
      rw [tombstone_sessions, Option.map_map]
      congr 1
      funext e
      by_cases hs : sid = sid' <;> by_cases ha : e.status = .alive <;>
        simp [hs, ha, SessionEntry.killed]
  unfold tombstoneByCustody
  rw [hfold]
  cases he : m.sessions sid with
  | none => rfl
  | some e =>
    simp only [Option.map_some, backedBy, List.mem_filter, he, Option.any_some, decide_eq_true_eq]
    congr 1
    by_cases ha : e.status = .alive <;> simp [ha]

theorem tombstoneByCustody_index (m : SessionMap) (order : List Sid) (custody : CustodyId)
    (now : Timestamp) : (m.tombstoneByCustody order custody now).1.index = m.index ∧
      (m.tombstoneByCustody order custody now).1.policy = m.policy := by
  unfold tombstoneByCustody
  generalize m.backedBy order custody = sids
  suffices h : ∀ r : SessionMap × ℕ, (sids.foldl (fun r sid =>
      let killed := r.1.tombstoneSessionWithReason sid now .upstreamRevoked
      (killed.1, if killed.2 then r.2 + 1 else r.2)) r).1.index = r.1.index ∧
      (sids.foldl (fun r sid =>
      let killed := r.1.tombstoneSessionWithReason sid now .upstreamRevoked
      (killed.1, if killed.2 then r.2 + 1 else r.2)) r).1.policy = r.1.policy from h (m, 0)
  induction sids with
  | nil => exact fun _ => ⟨rfl, rfl⟩
  | cons sid sids ih =>
    intro r
    obtain ⟨h₁, h₂⟩ := ih ((r.1.tombstoneSessionWithReason sid now .upstreamRevoked).1,
      if (r.1.tombstoneSessionWithReason sid now .upstreamRevoked).2 then r.2 + 1 else r.2)
    obtain ⟨h₃, h₄⟩ := tombstone_index r.1 sid now .upstreamRevoked
    exact ⟨h₁.trans h₃, h₂.trans h₄⟩

/-- The loop of `set_custody_status`. -/
theorem touch_sessions (custody : CustodyId) (status : CustodyStatus) (order : List Sid)
    (r : SessionMap × ℕ × List Sid) (sid : Sid) :
    (order.foldl (touchCustody custody status) r).1.sessions sid = (r.1.sessions sid).map fun e =>
      if sid ∈ order ∧ e.custody = custody then { e with custodyStatus := status } else e := by
  induction order generalizing r with
  | nil => simp
  | cons sid' order ih =>
    have hone : (touchCustody custody status r sid').1.sessions sid = (r.1.sessions sid).map fun e =>
        if sid = sid' ∧ e.custody = custody then { e with custodyStatus := status } else e := by
      unfold touchCustody
      cases he : r.1.sessions sid' with
      | none =>
        by_cases hs : sid = sid'
        · rw [hs, he]
          rfl
        · simp [hs]
      | some e =>
        dsimp only
        by_cases hs : sid = sid'
        · subst hs
          rw [he]
          split_ifs with hc <;> simp [hc, he]
        · split_ifs <;> simp [hs]
    rw [List.foldl_cons, ih, hone, Option.map_map]
    congr 1
    funext e
    by_cases hs : sid = sid' <;> by_cases hc : e.custody = custody <;> simp [hs, hc]

/-- **`set_custody_status`**, session by session. -/
theorem setCustodyStatus_sessions (m : SessionMap) (order : List Sid) (custody : CustodyId)
    (status : CustodyStatus) (sid : Sid) :
    (m.setCustodyStatus order custody status).1.sessions sid = (m.sessions sid).map fun e =>
      if sid ∈ order ∧ e.custody = custody then { e with custodyStatus := status } else e := by
  have hannounce : ∀ (sids : List Sid) (m : SessionMap),
      (sids.foldl (fun m sid => m.announce (.custodyChanged sid status)) m).sessions = m.sessions := by
    intro sids
    induction sids with
    | nil => exact fun _ => rfl
    | cons sid sids ih => exact fun m => ih _
  rw [setCustodyStatus, hannounce]
  exact touch_sessions custody status order (m, 0, []) sid

theorem setCustodyStatus_index (m : SessionMap) (order : List Sid) (custody : CustodyId)
    (status : CustodyStatus) : (m.setCustodyStatus order custody status).1.index = m.index ∧
      (m.setCustodyStatus order custody status).1.policy = m.policy := by
  refine moves_invariant (fun m' => m'.index = m.index ∧ m'.policy = m.policy)
    (fun m₁ m₂ hi hm => ?_) (setCustodyStatus_moves order) ⟨rfl, rfl⟩
  cases hm with
  | kill reason hn => cases hn
  | touch => exact hi
  | announce => exact hi

end SessionMap

/-! ## No login escapes -/

namespace Broker

/-- The worker is yet to scan for this custody. -/
def Pending (s : Broker) (custody : CustodyId) : Prop :=
  ∃ now, WorkerAction.tombstoneByCustody custody now ∈ s.worker.todo

/-- An alive session with a dead custody is about to be killed. -/
def Covered (s : Broker) : Prop :=
  ∀ sid e, s.sessions.sessions sid = some e → e.status = .alive →
    s.worker.scheduler.statusOf e.custody = some .dead → s.Pending e.custody

/-- An iteration visits every session there is. -/
def Visits (s : Broker) : BrokerOp → Prop
  | .act order => ∀ sid, (s.sessions.sessions sid).isSome → sid ∈ order
  | _ => True

/-- A session is not created once the scan for its custody is over. -/
def InTime (s : Broker) : BrokerOp → Prop
  | .create _ custody _ _ _ => s.login custody = some .scheduled →
    s.worker.scheduler.statusOf custody = some .dead → s.Pending custody
  | _ => True

/-- Every step of the run is such. -/
def Along (ring : KeyRing) (P : Broker → BrokerOp → Prop) : Broker → List BrokerOp → Prop
  | _, [] => True
  | s, op :: ops => P s op ∧ Along ring P (s.step ring op) ops

section
variable {ring : KeyRing} {s : Broker} {op : BrokerOp}

theorem step_policy (ring : KeyRing) (s : Broker) (op : BrokerOp) :
    (s.step ring op).worker.scheduler.policy = s.worker.scheduler.policy := by
  cases op with
  | accept draw =>
    simp only [Broker.step]
    split_ifs
    · split <;> rfl
    · rfl
  | dispatch =>
    simp only [Broker.step]
    split_ifs
    · unfold KeepaliveWorker.dispatch
      split <;> rfl
    · rfl
  | join custody outcome now draw =>
    simp only [Broker.step]
    split_ifs
    · cases outcome with
      | none => rfl
      | some outcome => exact Scheduler.record_policy outcome
    · rfl
  | act order =>
    simp only [Broker.step]
    split
    · rfl
    · rw [perform_worker]
  | schedule custody issuedAt lifetimeSecs =>
    simp only [Broker.step]
    split
    · split_ifs <;> rfl
    · rfl
  | commit count beginFails commitFails => rfl
  | _ =>
    simp only [Broker.step]
    split_ifs <;> rfl

/-- Under the kill policy a custody that dies is one to scan for. -/
theorem pending_of_join {w : KeepaliveWorker} {custody : CustodyId} {outcome : RefreshOutcome}
    {now : Timestamp} {draw : Draw} (hk : w.scheduler.policy.onUpstreamRevoked = .kill)
    (hd : (w.scheduler.record custody outcome now draw).1.statusOf custody = some .dead) :
    .tombstoneByCustody custody now ∈ (w.join custody (some outcome) now draw).todo := by
  obtain ⟨-, hself, -, hdead⟩ := Scheduler.record_spec w.scheduler custody now draw outcome
  obtain ⟨rfl, -⟩ := hdead.1 (hself.symm.trans hd)
  simp [KeepaliveWorker.join, KeepaliveWorker.actions, hk]

/-- **A step keeps alive sessions covered.** -/
theorem Covered.step (hk : s.worker.scheduler.policy.onUpstreamRevoked = .kill) (h : s.Covered)
    (hv : s.Visits op) (hi : s.InTime op) : (s.step ring op).Covered := by
  cases op with
  | takeCustody row =>
    simp only [Broker.step]
    split_ifs
    · exact h
    · exact h
  | schedule custody issuedAt lifetimeSecs =>
    simp only [Broker.step]
    split
    · split_ifs <;> exact h
    · exact h
  | create sid custody sub token now =>
    simp only [Broker.step]
    split_ifs with hl
    · refine forall_update h fun e he ha hd => ?_
      cases he
      exact hi hl hd
    · exact h
  | accept draw =>
    simp only [Broker.step]
    split_ifs with hidle
    · split
      · exact h
      · intro sid e he ha hd
        change (Scheduler.put ..).statusOf _ = _ at hd
        rw [Scheduler.statusOf_put] at hd
        split_ifs at hd
        · cases hd
        · exact h sid e he ha hd
    · exact h
  | tick now =>
    simp only [Broker.step]
    split_ifs with hidle
    · intro sid e he ha hd
      refine h sid e he ha ?_
      rwa [← (Scheduler.takeDue_spec s.worker.scheduler now).1 e.custody]
    · exact h
  | dispatch =>
    simp only [Broker.step]
    split_ifs
    · unfold KeepaliveWorker.dispatch
      split <;> exact h
    · exact h
  | renew =>
    simp only [Broker.step]
    split_ifs <;> exact h
  | join custody outcome now draw =>
    simp only [Broker.step]
    split_ifs with hj
    · cases outcome with
      | none => exact h
      | some outcome =>
        intro sid e he ha hd
        by_cases hc : e.custody = custody
        · rw [hc] at hd ⊢
          exact ⟨now, pending_of_join hk hd⟩
        · -- nothing was left to do, so nothing alive was dead
          have hother := (Scheduler.record_spec s.worker.scheduler custody now draw outcome).1 _ hc
          obtain ⟨_, hp⟩ := h sid e he ha (hother.symm.trans hd)
          rw [hj.2] at hp
          cases hp
    · exact h
  | act order =>
    simp only [Broker.step]
    split
    · exact h
    · rename_i action todo htodo
      have hpending : ∀ custody, (∀ now, action ≠ .tombstoneByCustody custody now) →
          s.Pending custody → ∃ now, WorkerAction.tombstoneByCustody custody now ∈ todo := by
        rintro custody hne ⟨now, hp⟩
        rw [htodo] at hp
        rcases List.mem_cons.1 hp with hp | hp
        · exact absurd hp.symm (hne now)
        · exact ⟨now, hp⟩
      intro sid e he ha hd
      unfold Pending
      rw [perform_worker] at hd ⊢
      cases action with
      | setCustodyStatus custody status =>
        obtain ⟨e₀, he₀, rfl⟩ := Option.map_eq_some_iff.1
          ((SessionMap.setCustodyStatus_sessions s.sessions order custody status sid).symm.trans he)
        have hsame : ∀ e' : SessionEntry, e' = (if sid ∈ order ∧ e₀.custody = custody then
            { e₀ with custodyStatus := status } else e₀) →
            e'.status = e₀.status ∧ e'.custody = e₀.custody := by
          rintro e' rfl
          split_ifs <;> exact ⟨rfl, rfl⟩
        obtain ⟨hst, hcu⟩ := hsame _ rfl
        rw [hcu] at hd ⊢
        exact hpending _ (fun _ => by simp) (h sid e₀ he₀ (hst ▸ ha) hd)
      | persistFailure custody status now =>
        rw [perform_persistFailure] at he
        exact hpending _ (fun _ => by simp) (h sid e he ha hd)
      | tombstoneByCustody custody now =>
        obtain ⟨e₀, he₀, rfl⟩ := Option.map_eq_some_iff.1
          ((SessionMap.tombstoneByCustody_sessions s.sessions order custody now sid).symm.trans he)
        split_ifs at ha hd ⊢ with hkill
        · cases ha
        · refine hpending _ (fun now' hact => hkill ?_) (h sid e₀ he₀ ha hd)
          cases hact
          exact ⟨hv sid (by rw [he₀]; rfl), rfl, ha⟩
  | commit count beginFails commitFails => exact h

/-- A run of such steps keeps them covered. -/
theorem Covered.run {ops : List BrokerOp} (h : s.Covered)
    (hk : s.worker.scheduler.policy.onUpstreamRevoked = .kill)
    (ha : Along ring (fun s op => s.Visits op ∧ s.InTime op) s ops) :
    (run (Broker.step ring) s ops).Covered := by
  induction ops generalizing s with
  | nil => exact h
  | cons op ops ih =>
    refine ih (h.step hk ha.1.1 ha.1.2) ?_ ha.2
    rw [step_policy, hk]

/-- A session created after the scan is one that nothing will kill. -/
theorem not_covered_of_late {sid : Sid} {custody : CustodyId} {sub : String}
    {token : SessionToken} {now : Timestamp} (h : ¬ s.InTime (.create sid custody sub token now)) :
    ¬ (s.step ring (.create sid custody sub token now)).Covered := by
  simp only [InTime, Classical.not_imp] at h
  obtain ⟨hl, hd, hp⟩ := h
  intro hc
  simp only [Broker.step, if_pos hl] at hc
  exact hp (hc sid _ (Function.update_self ..) rfl hd)

/-- Nothing is dead at boot. -/
theorem covered_boot (policy : SessionPolicy) (keepalive : KeepalivePolicy) (db : Db)
    (now : Timestamp) : (boot policy keepalive db now).Covered :=
  fun _ _ _ _ hd => absurd rfl (statusOf_restore hd).1

end

/-- **No login escapes.**  Under the kill policy, in every run whose scans
    visit every session and whose logins create theirs before the scan for
    their custody is over, no alive session has a dead custody when the worker
    has nothing left to do. -/
theorem no_login_escapes (ring : KeyRing) (policy : SessionPolicy) (keepalive : KeepalivePolicy)
    (db : Db) (now : Timestamp) (hk : keepalive.onUpstreamRevoked = .kill) (ops : List BrokerOp)
    (h : Along ring (fun s op => s.Visits op ∧ s.InTime op) (boot policy keepalive db now) ops) :
    let s := run (Broker.step ring) (boot policy keepalive db now) ops
    s.worker.todo = [] → ∀ sid e, s.sessions.sessions sid = some e → e.status = .alive →
      s.worker.scheduler.statusOf e.custody ≠ some .dead := by
  intro s htodo sid e he ha hd
  have hkill : (boot policy keepalive db now).worker.scheduler.policy.onUpstreamRevoked = .kill := by
    rw [show (boot policy keepalive db now).worker.scheduler.policy = keepalive from
      restore_policy .., hk]
  obtain ⟨now, hp⟩ := (covered_boot policy keepalive db now).run hkill h sid e he ha hd
  rw [htodo] at hp
  cases hp

/-- A draw without jitter. -/
def plainDraw : Draw := ⟨fun lifetimeSecs => max lifetimeSecs 1, id⟩

/-- A login whose grant dies between its schedule request and its session. -/
def lateLogin : List BrokerOp :=
  [.takeCustody ⟨⟨"c"⟩, "alice", [], [], ⟨60⟩, none, .ok, ⟨60⟩, 0, ⟨0⟩, "p"⟩,
    .commit 1 false false, .schedule ⟨"c"⟩ ⟨0⟩ 1, .accept plainDraw, .tick ⟨1⟩, .dispatch,
    .join ⟨"c"⟩ (some .permanent) ⟨1⟩ plainDraw, .act [], .act [], .act [],
    .create ⟨"s"⟩ ⟨"c"⟩ "alice" .sample1 ⟨1⟩]

/-- Its session is alive, its custody dead, and the worker idle. -/
theorem login_escapes :
    let s := run (Broker.step ⟨1, [1]⟩) (boot {} {} (.fresh ⟨0⟩) ⟨0⟩) lateLogin
    s.worker.Idle ∧ (s.sessions.sessions ⟨"s"⟩).map (·.status) = some .alive ∧
      (s.sessions.sessions ⟨"s"⟩).map (·.custody) = some ⟨"c"⟩ ∧
      s.worker.scheduler.statusOf ⟨"c"⟩ = some .dead := by
  decide

/-- At a concrete run: a grant dies before the login of another. -/
theorem no_login_escapes_other :
    let ops : List BrokerOp := lateLogin.take 10 ++
      [.takeCustody ⟨⟨"d"⟩, "alice", [], [], ⟨60⟩, none, .ok, ⟨60⟩, 0, ⟨1⟩, "p"⟩,
        .commit 9 false false, .schedule ⟨"d"⟩ ⟨1⟩ 60, .accept plainDraw,
        .create ⟨"s"⟩ ⟨"d"⟩ "alice" .sample1 ⟨1⟩]
    let s := run (Broker.step ⟨1, [1]⟩) (boot {} {} (.fresh ⟨0⟩) ⟨0⟩) ops
    (s.sessions.sessions ⟨"s"⟩).map (·.status) = some .alive ∧
      s.worker.scheduler.statusOf ⟨"c"⟩ = some .dead ∧
      ∀ sid e, s.sessions.sessions sid = some e → e.status = .alive →
        s.worker.scheduler.statusOf e.custody ≠ some .dead := by
  intro ops s
  refine ⟨by decide, by decide, no_login_escapes ⟨1, [1]⟩ {} {} (.fresh ⟨0⟩) ⟨0⟩ rfl ops ?_ (by decide)⟩
  -- no session is there when the worker acts
  have hnone : ∀ {order : List Sid} (sid : Sid), (none : Option SessionEntry).isSome → sid ∈ order :=
    fun _ h => by cases h
  refine ⟨⟨trivial, trivial⟩, ⟨trivial, trivial⟩, ⟨trivial, trivial⟩, ⟨trivial, trivial⟩,
    ⟨trivial, trivial⟩, ⟨trivial, trivial⟩, ⟨trivial, trivial⟩, ⟨hnone, trivial⟩, ⟨hnone, trivial⟩,
    ⟨hnone, trivial⟩, ⟨trivial, trivial⟩, ⟨trivial, trivial⟩, ⟨trivial, trivial⟩, ⟨trivial, trivial⟩,
    ⟨trivial, ?_⟩, trivial⟩
  exact fun _ hd => absurd hd (by decide)

end Broker

end SessionBroker
