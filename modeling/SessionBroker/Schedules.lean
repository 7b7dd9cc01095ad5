/-
  The schedule of a custody, in the scheduler and in its row (`keepalive.rs`,
  `custody.rs`, `main.rs`).

  * `Promises`: what the row will show once the queue has been applied;
  * `Recorded`: a custody with an outcome on record has, in its row or on its
    way there, what its entry has.  A success keeps this only if the deadline
    that the scheduler draws is the expiry that the task has written;
  * `restore_entry`: what a boot schedules from a row;
  * `schedules_agree` puts them together.
-/
import SessionBroker.Renewal
import SessionBroker.Ticks
import SessionBroker.Undead

namespace SessionBroker

open Runs Table Transaction

/-! ## The schedule in a row -/

/-- `status`, `fail_count` and `next_refresh`. -/
structure Schedule where
  status : CustodyStatus
  failCount : ℤ
  nextRefresh : Timestamp
deriving DecidableEq, Repr

def CustodyRecord.schedule (c : CustodyRecord) : Schedule := ⟨c.status, c.failCount, c.nextRefresh⟩

def CustodyState.schedule (st : CustodyState) : Schedule := ⟨st.status, st.failCount, st.nextRefresh⟩

/-- The schedule that a command brings to a row that is there. -/
def Command.scheduleFor (custody : CustodyId) : Command → Option Schedule
  | .custody (.success c _ _ _ nextRefresh _) _ => if c = custody then some ⟨.ok, 0, nextRefresh⟩ else none
  | .custody (.failure c status failCount nextRefresh _) _ =>
    if c = custody then some ⟨status, failCount, nextRefresh⟩ else none
  | _ => none

/-- What a row shows once the commands have been applied. -/
def scheduleAfter (custody : CustodyId) (cmds : List Command) (b : Schedule) : Schedule :=
  ((cmds.filterMap (Command.scheduleFor custody)).getLast?).getD b

section
variable {ring : KeyRing} {db db' : Db} {custody : CustodyId} {cmds : List Command}

@[simp] theorem scheduleAfter_nil (b : Schedule) : scheduleAfter custody [] b = b := rfl

theorem scheduleAfter_append (cmds cmds' : List Command) (b : Schedule) :
    scheduleAfter custody (cmds ++ cmds') b =
      scheduleAfter custody cmds' (scheduleAfter custody cmds b) := by
  unfold scheduleAfter
  rw [List.filterMap_append, List.getLast?_append]
  cases (cmds'.filterMap (Command.scheduleFor custody)).getLast? <;> rfl

theorem scheduleAfter_singleton (cmd : Command) (b : Schedule) :
    scheduleAfter custody [cmd] b = (cmd.scheduleFor custody).getD b := by
  cases h : cmd.scheduleFor custody <;> simp [scheduleAfter, h]

/-- Commands that say nothing of the schedule. -/
theorem scheduleAfter_of_none (h : ∀ cmd ∈ cmds, cmd.scheduleFor custody = none) (b : Schedule) :
    scheduleAfter custody cmds b = b := by
  unfold scheduleAfter
  rw [List.filterMap_eq_nil_iff.2 h]
  rfl

theorem schedule_onRow (custody : CustodyId) (ring : KeyRing) (cmd : Command) (r : CustodyRecord) :
    ∃ r', cmd.onRow ring custody (some r) = some r' ∧
      r'.schedule = (cmd.scheduleFor custody).getD r.schedule := by
  cases cmd with
  | custody write ack =>
    cases write with
    | insert row => exact ⟨r, by simp [Command.onRow], rfl⟩
    | success c refreshTok accessTok accessExp nextRefresh now =>
      simp only [Command.onRow, Command.scheduleFor]
      split_ifs <;> exact ⟨_, rfl, rfl⟩
    | failure c status failCount nextRefresh now =>
      simp only [Command.onRow, Command.scheduleFor]
      split_ifs <;> exact ⟨_, rfl, rfl⟩
  | reseal =>
    refine ⟨r.resealed ring, rfl, ?_⟩
    unfold CustodyRecord.resealed
    split <;> rfl
  | _ => exact ⟨r, rfl, rfl⟩

/-- **The schedule of a row after a queue.** -/
theorem schedule_applyAll (hcmds : ∀ cmd ∈ cmds, ¬ cmd.Reaps)
    (h : applyAll (Db.apply ring) db cmds = some db') {r : CustodyRecord}
    (hr : db.findCustody custody = some r) :
    ∃ r', db'.findCustody custody = some r' ∧ r'.schedule = scheduleAfter custody cmds r.schedule := by
  rw [findCustody_applyAll hcmds h, hr]
  clear h hr hcmds
  induction cmds generalizing r with
  | nil => exact ⟨r, rfl, rfl⟩
  | cons cmd cmds ih =>
    obtain ⟨r', hr', hs⟩ := schedule_onRow custody ring cmd r
    obtain ⟨r'', hr'', hs'⟩ := @ih r'
    refine ⟨r'', by rw [List.foldl_cons, hr', hr''], ?_⟩
    rw [hs', hs, ← scheduleAfter_singleton, ← scheduleAfter_append]
    rfl

end

/-! ## The schedule on its way -/

namespace Broker

/-- Once the queue has been applied, the row of the custody shows `b`. -/
def Promises (s : Broker) (custody : CustodyId) (b : Schedule) : Prop :=
  ∃ row, s.db.findCustody custody = some row ∧ scheduleAfter custody s.queue row.schedule = b

variable {ring : KeyRing} {s s' : Broker} {custody : CustodyId} {b : Schedule}

theorem promises_of_has (h : s.db.HasCustody custody) : ∃ b, s.Promises custody b := by
  obtain ⟨c, hc, hid⟩ := h
  have hfind : (s.db.findCustody custody).isSome :=
    List.find?_isSome.2 ⟨c, hc, decide_eq_true hid⟩
  obtain ⟨row, hrow⟩ := Option.isSome_iff_exists.1 hfind
  exact ⟨_, row, hrow, rfl⟩

theorem Promises.same (h : s.Promises custody b) (hdb : s'.db = s.db) (hqueue : s'.queue = s.queue) :
    s'.Promises custody b := by
  obtain ⟨row, hrow, hb⟩ := h
  exact ⟨row, hdb ▸ hrow, hqueue ▸ hb⟩

/-- What is sent behind the queue. -/
theorem Promises.sends {write : Option CustodyWrite} (h : s.Promises custody b)
    (hs : s.Sends s' write) : s'.Promises custody
      ((write.bind fun w => (Command.custody w s.nextAck).scheduleFor custody).getD b) := by
  obtain ⟨row, hrow, rfl⟩ := h
  obtain ⟨cmds, hq, hc⟩ := hs.queue
  refine ⟨row, hs.db ▸ hrow, ?_⟩
  rw [hq, scheduleAfter_append]
  cases write with
  | none =>
    refine scheduleAfter_of_none (fun cmd hm => ?_) _
    have hno := (hc cmd hm).1
    cases cmd with
    | custody => cases hno
    | _ => rfl
  | some w =>
    obtain rfl : cmds = [.custody w s.nextAck] := hc
    exact scheduleAfter_singleton _ _

/-- What says nothing of the schedule. -/
theorem Promises.sends_none {write : Option CustodyWrite} (h : s.Promises custody b)
    (hs : s.Sends s' write)
    (hw : ∀ w ∈ write, (Command.custody w s.nextAck).scheduleFor custody = none) :
    s'.Promises custody b := by
  have hp := h.sends hs
  cases write with
  | none => exact hp
  | some w => rwa [Option.bind_some, hw w rfl] at hp

/-- **A batch that commits** leaves a promise as it is. -/
theorem Promises.commit {count : ℕ} {db : Db} {applied : List Command} {durable : List ℕ}
    (h : s.Promises custody b) (hcmds : ∀ cmd ∈ s.queue, ¬ cmd.Reaps)
    (ha : applyAll (Db.apply ring) s.db (s.queue.take count) = some db) :
    ({ s with queue := s.queue.drop count, db, applied, durable } : Broker).Promises custody b := by
  obtain ⟨row, hrow, rfl⟩ := h
  obtain ⟨row', hrow', hs⟩ := schedule_applyAll
    (fun cmd hm => hcmds cmd (List.mem_of_mem_take hm)) ha hrow
  refine ⟨row', hrow', ?_⟩
  show scheduleAfter custody (s.queue.drop count) row'.schedule = _
  rw [hs, ← scheduleAfter_append, List.take_append_drop]

/-- The batch of a commit that is not rolled back. -/
def Commits (ring : KeyRing) (s : Broker) (count : ℕ) (beginFails commitFails : Bool) : Bool :=
  (applyBatch ring s.db ⟨(s.queue.take count).map (·, false), beginFails, commitFails⟩).committed.isSome

theorem commit_of_commits {count : ℕ} {beginFails commitFails : Bool}
    (h : s.Commits ring count beginFails commitFails = true) :
    ∃ db applied durable, s.step ring (.commit count beginFails commitFails) =
        { s with queue := s.queue.drop count, db, applied, durable } ∧
      applyAll (Db.apply ring) s.db (s.queue.take count) = some db := by
  obtain ⟨db, hdb⟩ := Option.isSome_iff_exists.1 h
  set after := s.step ring (.commit count beginFails commitFails) with hafter
  refine ⟨db, after.applied, after.durable, ?_, ?_⟩
  · rw [hafter]
    simp only [Broker.step, commitBatch, hdb, Option.getD_some]
  · rw [applyBatch_committed] at hdb
    split_ifs at hdb
    rwa [attempt_false] at hdb

/-! ### The entry -/

/-- Only an outcome moves the schedule of an entry. -/
theorem step_schedule (ring : KeyRing) {op : BrokerOp} {st : CustodyState} (h : s.Coherent)
    (hop : op.refreshes = false) (hst : s.worker.scheduler.entries custody = some st) :
    ∃ st', (s.step ring op).worker.scheduler.entries custody = some st' ∧
      st'.schedule = st.schedule := by
  cases op with
  | schedule c issuedAt lifetimeSecs =>
    simp only [Broker.step]
    split
    · split_ifs <;> exact ⟨st, hst, rfl⟩
    · exact ⟨st, hst, rfl⟩
  | accept draw =>
    simp only [Broker.step]
    split_ifs
    · split
      · exact ⟨st, hst, rfl⟩
      · rename_i r requests hr
        refine ⟨st, ?_, rfl⟩
        have hnone := (h.request r (hr ▸ List.mem_cons_self ..)).2
        have hne : custody ≠ r.custody := by
          rintro rfl
          rw [Scheduler.statusOf, hst] at hnone
          cases hnone
        show (s.worker.scheduler.insert r.custody r.issuedAt r.lifetimeSecs draw).entries custody = _
        rw [Scheduler.insert, Scheduler.put_entries, if_neg hne, hst]
    · exact ⟨st, hst, rfl⟩
  | tick now =>
    simp only [Broker.step]
    split_ifs
    · show ∃ st', (s.worker.scheduler.takeDue now).1.entries custody = some st' ∧ _
      rw [Scheduler.takeDue_entries, Scheduler.mark, hst]
      split_ifs <;> exact ⟨_, rfl, rfl⟩
    · exact ⟨st, hst, rfl⟩
  | dispatch =>
    simp only [Broker.step]
    split_ifs
    · refine ⟨st, ?_, rfl⟩
      show s.worker.dispatch.scheduler.entries custody = some st
      unfold KeepaliveWorker.dispatch
      split <;> exact hst
    · exact ⟨st, hst, rfl⟩
  | act order =>
    simp only [Broker.step]
    split
    · exact ⟨st, hst, rfl⟩
    · rw [perform_worker]
      exact ⟨st, hst, rfl⟩
  | commit count b c => exact ⟨st, hst, rfl⟩
  | renew => cases hop
  | join => cases hop
  | _ =>
    simp only [Broker.step]
    split_ifs <;> exact ⟨st, hst, rfl⟩

/-- Only an outcome, or its effects, move what is left to do. -/
theorem step_todo {op : BrokerOp} (hop : op.refreshes = false) (hact : ∀ order, op ≠ .act order) :
    (s.step ring op).worker.todo = s.worker.todo := by
  cases op with
  | schedule c issuedAt lifetimeSecs =>
    simp only [Broker.step]
    split
    · split_ifs <;> rfl
    · rfl
  | accept draw =>
    simp only [Broker.step]
    split_ifs
    · split <;> rfl
    · rfl
  | dispatch =>
    simp only [Broker.step]
    split_ifs
    · show s.worker.dispatch.todo = _
      unfold KeepaliveWorker.dispatch
      split <;> rfl
    · rfl
  | act order => exact absurd rfl (hact order)
  | commit count b c => rfl
  | renew => cases hop
  | join => cases hop
  | _ =>
    simp only [Broker.step]
    split_ifs <;> rfl

end Broker

/-! ## Runs in which every batch commits -/

/-- The renewal that a task has sent to the writer. -/
def RefreshStage.sent : RefreshStage → Option Renewal
  | writing _ r | written r => some r
  | _ => none

namespace Renewals

/-- No batch is rolled back. -/
def commits (ring : KeyRing) (s : Renewals) : RenewalOp → Bool
  | .broker (.commit count beginFails commitFails) => s.broker.Commits ring count beginFails commitFails
  | _ => true

/-- What is on its way to the row, and what is left to write. -/
structure Timely (s : Renewals) : Prop where
  coherent : s.broker.Coherent
  posted : s.Posted
  owed : ∀ c status now, .persistFailure c status now ∈ s.broker.worker.todo →
    c ∉ s.broker.worker.inflight
  sent : ∀ c r, (s.task c).sent = some r → s.broker.Promises c ⟨.ok, 0, r.expiresAt⟩

variable {ring : KeyRing} {s : Renewals} {custody : CustodyId}

/-- A custody whose task is not over is in flight. -/
theorem Timely.inflight (h : s.Timely) {c : CustodyId} {r : Renewal} (hr : (s.task c).sent = some r) :
    c ∈ s.broker.worker.inflight := by
  refine h.posted.running c fun ht => ?_
  rw [ht] at hr
  cases hr

/-- What a custody in flight has: an entry that is not dead, and a row. -/
theorem Timely.scheduled (h : s.Timely) {c : CustodyId} (hc : c ∈ s.broker.worker.inflight) :
    (∃ st, s.broker.worker.scheduler.entries c = some st) ∧ s.broker.db.HasCustody c := by
  obtain ⟨status, hs, -⟩ := h.coherent.worker.live c (List.mem_append_left _ hc)
  obtain ⟨st, hst, -⟩ := Option.map_eq_some_iff.1 hs
  exact ⟨⟨st, hst⟩, h.coherent.scheduled c (by rw [hs]; rfl)⟩

/-- **An effect**: what it sends, and that this is the entry's schedule. -/
theorem act_sends (ring : KeyRing) (h : s.Timely) (order : List Sid) {action : WorkerAction}
    {todo : List WorkerAction} (ht : s.broker.worker.todo = action :: todo) :
    ∃ write, s.broker.Sends (s.broker.step ring (.act order)) write ∧
      (s.broker.step ring (.act order)).worker = { s.broker.worker with todo } ∧
      ∀ c, (∀ w ∈ write, (Command.custody w s.broker.nextAck).scheduleFor c = none) ∧
          (∀ status now, action ≠ .persistFailure c status now) ∨
        c ∉ s.broker.worker.inflight ∧
          ∀ st, s.broker.worker.scheduler.entries c = some st →
            ∃ w, write = some w ∧
              (Command.custody w s.broker.nextAck).scheduleFor c = some st.schedule := by
  have hstep : s.broker.step ring (.act order) =
      ({ s.broker with worker := { s.broker.worker with todo } } : Broker).perform order action := by
    simp only [Broker.step, ht]
  have hworker : (s.broker.step ring (.act order)).worker = { s.broker.worker with todo } := by
    rw [hstep, Broker.perform_worker]
  cases action with
  | setCustodyStatus c status =>
    refine ⟨none, ?_, hworker, fun c' => Or.inl ⟨by simp, fun status' now' hn => by cases hn⟩⟩
    rw [hstep]
    have hs := Broker.sends_sessions { s.broker with worker := { s.broker.worker with todo } }
      (s.broker.sessions.setCustodyStatus order c status).1
    exact ⟨hs.db, hs.applied, hs.durable, hs.nextAck, hs.queue⟩
  | tombstoneByCustody c now =>
    refine ⟨none, ?_, hworker, fun c' => Or.inl ⟨by simp, fun status' now' hn => by cases hn⟩⟩
    rw [hstep]
    have hs := Broker.sends_sessions { s.broker with worker := { s.broker.worker with todo } }
      (s.broker.sessions.tombstoneByCustody order c now).1
    exact ⟨hs.db, hs.applied, hs.durable, hs.nextAck, hs.queue⟩
  | persistFailure c status now =>
    have howed := h.coherent.worker.owed c status now (ht ▸ List.mem_cons_self ..)
    have hout := h.owed c status now (ht ▸ List.mem_cons_self ..)
    obtain ⟨st, hst, rfl⟩ := Option.map_eq_some_iff.1 howed
    have hs : s.broker.Sends (s.broker.step ring (.act order))
        (some (.failure c st.status st.failCount st.nextRefresh now)) := by
      rw [hstep]
      simp only [Broker.perform, hst]
      have hs := Broker.sends_custody { s.broker with worker := { s.broker.worker with todo } }
        (.failure c st.status st.failCount st.nextRefresh now)
      exact ⟨hs.db, hs.applied, hs.durable, hs.nextAck, hs.queue⟩
    refine ⟨_, hs, hworker, fun c' => ?_⟩
    by_cases hc : c = c'
    · subst hc
      refine Or.inr ⟨hout, fun st' hst' => ⟨_, rfl, ?_⟩⟩
      rw [hst] at hst'
      cases hst'
      exact if_pos rfl
    · refine Or.inl ⟨fun w hw => ?_, fun status' now' hn => ?_⟩
      · cases hw
        exact if_neg hc
      · cases hn
        exact hc rfl

/-- A failure of the custody is still to be written. -/
def Owes (s : Renewals) (custody : CustodyId) : Prop :=
  ∃ status now, .persistFailure custody status now ∈ s.broker.worker.todo

/-- **A step of the broker** keeps a promise, or writes the entry's schedule for
    a custody that is not in flight; and what it owed it owes or has written. -/
theorem Timely.broker {op : BrokerOp} (h : s.Timely) (hop : op.refreshes = false)
    (hc : s.commits ring (.broker op) = true) (custody : CustodyId) :
    (∀ b, s.broker.Promises custody b → (s.broker.step ring op).Promises custody b ∨
      custody ∉ s.broker.worker.inflight ∧ ∀ st, s.broker.worker.scheduler.entries custody = some st →
        (s.broker.step ring op).Promises custody st.schedule) ∧
    (s.Owes custody → Owes { s with broker := s.broker.step ring op } custody ∨
      ∀ st, s.broker.worker.scheduler.entries custody = some st →
        (s.broker.step ring op).Promises custody st.schedule) := by
  by_cases hcommit : ∃ count b c, op = .commit count b c
  · obtain ⟨count, b, c, rfl⟩ := hcommit
    obtain ⟨db, applied, durable, hs, ha⟩ := Broker.commit_of_commits hc
    refine ⟨fun v hv => Or.inl ?_, fun ho => Or.inl ho⟩
    rw [hs]
    exact hv.commit h.posted.unreaped ha
  by_cases hact : ∃ order, op = .act order
  · obtain ⟨order, rfl⟩ := hact
    cases ht : s.broker.worker.todo with
    | nil =>
      have hs : s.broker.step ring (.act order) = s.broker := by
        simp only [Broker.step, ht]
      rw [hs]
      exact ⟨fun v hv => Or.inl hv, fun ho => Or.inl ho⟩
    | cons action todo =>
      obtain ⟨write, hs, hworker, hw⟩ := act_sends ring h order ht
      rcases hw custody with ⟨hnone, hother⟩ | ⟨hout, hmine⟩
      · refine ⟨fun v hv => Or.inl (hv.sends_none hs hnone), fun ho => Or.inl ?_⟩
        obtain ⟨status, now, hm⟩ := ho
        refine ⟨status, now, ?_⟩
        rw [ht] at hm
        show _ ∈ (s.broker.step ring (.act order)).worker.todo
        rw [hworker]
        exact (List.mem_cons.1 hm).resolve_left fun heq => hother status now heq.symm
      · have hpromise : ∀ v, s.broker.Promises custody v →
            ∀ st, s.broker.worker.scheduler.entries custody = some st →
              (s.broker.step ring (.act order)).Promises custody st.schedule := by
          intro v hv st hst
          obtain ⟨w, rfl, hsched⟩ := hmine st hst
          have hsent := hv.sends hs
          rwa [Option.bind_some, hsched] at hsent
        refine ⟨fun v hv => Or.inr ⟨hout, hpromise v hv⟩, fun _ => Or.inr fun st hst => ?_⟩
        obtain ⟨v, hv⟩ := Broker.promises_of_has
          (h.coherent.scheduled custody (by simp [Scheduler.statusOf, hst]))
        exact hpromise v hv st hst
  · obtain ⟨write, hs, hw⟩ := Broker.login_sends ring s.broker hop
      (fun count b c ho => hcommit ⟨count, b, c, ho⟩) fun order ho => hact ⟨order, ho⟩
    refine ⟨fun v hv => Or.inl (hv.sends_none hs fun w hm => ?_), fun ho => Or.inl ?_⟩
    · obtain ⟨row, rfl⟩ := hw w hm
      rfl
    · obtain ⟨status, now, hm⟩ := ho
      refine ⟨status, now, ?_⟩
      show _ ∈ (s.broker.step ring op).worker.todo
      rw [Broker.step_todo hop fun order ho => hact ⟨order, ho⟩]
      exact hm

/-- What is left to do is the last outcome's. -/
theorem owed_broker {op : BrokerOp} (h : s.Timely) (hop : op.refreshes = false)
    {c : CustodyId} {status : CustodyStatus} {now : Timestamp}
    (hm : .persistFailure c status now ∈ (s.broker.step ring op).worker.todo) :
    c ∉ (s.broker.step ring op).worker.inflight := by
  have hold : .persistFailure c status now ∈ s.broker.worker.todo := by
    by_cases hact : ∃ order, op = .act order
    · obtain ⟨order, rfl⟩ := hact
      cases ht : s.broker.worker.todo with
      | nil =>
        have hs : s.broker.step ring (.act order) = s.broker := by
          simp only [Broker.step, ht]
        rwa [hs, ht] at hm
      | cons action todo =>
        obtain ⟨write, -, hworker, -⟩ := act_sends ring h order ht
        rw [hworker] at hm
        exact List.mem_cons_of_mem _ hm
    · rwa [Broker.step_todo hop fun order ho => hact ⟨order, ho⟩] at hm
  rcases Broker.step_inflight ring s.broker hop with hi | ⟨-, hnone⟩
  · exact hi ▸ h.owed c status now hold
  · rw [hnone] at hold
    cases hold

/-- One task moves, and nothing is sent. -/
theorem Timely.setTask {c : CustodyId} {stage : RefreshStage} {newest : CustodyId → Bytes}
    (h : s.Timely) (hposted : ({ s.setTask c stage with newest } : Renewals).Posted)
    (hsent : ∀ r, stage.sent = some r → (s.task c).sent = some r) :
    ({ s.setTask c stage with newest } : Renewals).Timely where
  coherent := h.coherent
  posted := hposted
  owed := h.owed
  sent := by
    intro c' r hr
    show s.broker.Promises c' ⟨.ok, 0, r.expiresAt⟩
    simp only [Renewals.setTask, Function.update_apply] at hr
    split_ifs at hr with hc
    · rw [hc]
      exact h.sent c r (hsent r hr)
    · exact h.sent c' r hr

/-- A task is joined. -/
theorem Timely.join {c : CustodyId} {outcome : Option RefreshOutcome} {now : Timestamp} {draw : Draw}
    (h : s.Timely) (hj : s.Joins c) (hold : ∀ ack r, s.task c ≠ .writing ack r) :
    ({ s.setTask c .spawned with
      broker := s.broker.step ring (.join c outcome now draw) } : Renewals).Timely := by
  have hposted : ({ s.setTask c .spawned with
      broker := s.broker.step ring (.join c outcome now draw) } : Renewals).Posted :=
    h.posted.join hj hold
  have hcoherent : (s.broker.step ring (.join c outcome now draw)).Coherent := h.coherent.step _
  have hb : s.broker.step ring (.join c outcome now draw) =
      { s.broker with worker := s.broker.worker.join c outcome now draw } := by
    simp only [Broker.step]
    exact if_pos hj
  rw [hb] at hposted hcoherent ⊢
  refine ⟨hcoherent, hposted, fun c' status now' hm => ?_, fun c' r hr => ?_⟩
  · cases outcome with
    | none =>
      replace hm : .persistFailure c' status now' ∈ s.broker.worker.todo := hm
      rw [hj.2] at hm
      cases hm
    | some outcome =>
      -- only its own failure is to be written
      have hown : c' = c := KeepaliveWorker.actions_custody hm
      show c' ∉ s.broker.worker.inflight.erase c
      rw [hown]
      exact (List.nodup_append.1 h.coherent.worker.work).1.not_mem_erase
  · simp only [Renewals.setTask, Function.update_apply] at hr
    split_ifs at hr with hc
    · cases hr
    · exact (h.sent c' r hr).same rfl rfl

/-- **A step keeps the promises**, where every batch commits. -/
theorem Timely.step (h : s.Timely) (op : RenewalOp) (hop : s.commits ring op = true) :
    (s.step ring op).Timely := by
  have hposted : (s.step ring op).Posted := h.posted.step op
  cases op with
  | broker op =>
    simp only [Renewals.step] at hposted ⊢
    split_ifs at hposted ⊢ with href
    · exact h
    · rw [Bool.not_eq_true] at href
      refine ⟨h.coherent.step op, hposted, fun c status now hm => owed_broker h href hm, fun c r hr => ?_⟩
      rcases (h.broker href hop c).1 _ (h.sent c r hr) with hp | ⟨hout, -⟩
      · exact hp
      · exact absurd (h.inflight hr) hout
  | load c readFails =>
    simp only [Renewals.step] at hposted ⊢
    split_ifs at hposted ⊢
    · refine h.setTask hposted fun r hr => ?_
      rcases loadStage_cases ring (s.broker.db.findCustody c) readFails with
        ⟨-, refreshTok, hs⟩ | hs | hs
      all_goals rw [hs] at hr; cases hr
    · exact h
  | answer c reply now =>
    simp only [Renewals.step] at hposted ⊢
    split at hposted
    · refine h.setTask hposted fun r hr => ?_
      cases reply <;> cases hr
    · exact h
  | send c =>
    simp only [Renewals.step] at hposted ⊢
    split at hposted
    · rename_i r ht
      have hin : c ∈ s.broker.worker.inflight := h.posted.running c (by rw [ht]; simp)
      have hb : s.broker.step ring
          (.renew c r.refreshTok r.accessTok r.expiresAt r.expiresAt r.now) =
          s.broker.sendCustody (r.write c) := by
        simp only [Broker.step]
        exact if_pos hin
      have hcoherent : (s.broker.step ring
          (.renew c r.refreshTok r.accessTok r.expiresAt r.expiresAt r.now)).Coherent :=
        h.coherent.step _
      rw [hb] at hposted hcoherent ⊢
      have hsends := Broker.sends_custody s.broker (r.write c)
      refine ⟨hcoherent, hposted, h.owed, fun c' r' hr => ?_⟩
      simp only [Renewals.setTask, Function.update_apply] at hr
      split_ifs at hr with hc
      · cases hr
        obtain ⟨b, hb⟩ := Broker.promises_of_has (h.scheduled hin).2
        have hp := hb.sends hsends
        rw [hc]
        simpa [Renewal.write, Command.scheduleFor] using hp
      · refine (h.sent c' r' hr).sends_none hsends fun w hw => ?_
        cases hw
        exact if_neg (Ne.symm hc)
    · exact h
  | acknowledge c =>
    simp only [Renewals.step] at hposted ⊢
    split at hposted
    · rename_i ack r ht
      split_ifs at hposted ⊢
      · refine h.setTask hposted fun r' hr => ?_
        rw [ht]
        exact hr
      · exact h.setTask hposted fun r' hr => by cases hr
      · exact h
    · exact h
  | join c now draw =>
    simp only [Renewals.step]
    split_ifs with hj
    · split
      · rename_i outcome ho
        refine h.join hj fun ack r ht => ?_
        rw [ht] at ho
        cases ho
      · exact h
    · exact h
  | panic c now draw =>
    simp only [Renewals.step]
    split_ifs with hj
    · split
      all_goals first
        | exact h
        | rename_i ht
          refine h.join hj fun ack r ht' => ?_
          rw [ht] at ht'
          cases ht'
    · exact h

theorem timely_boot (policy : SessionPolicy) (keepalive : KeepalivePolicy) {db : Db}
    (hdb : db.Integrity) (now : Timestamp) (newest : CustodyId → Bytes) :
    (boot policy keepalive db now newest).Timely where
  coherent := Broker.coherent_boot policy keepalive hdb now
  posted := posted_boot policy keepalive db now newest
  owed := fun c status now hm => by cases hm
  sent := fun c r hr => by cases hr

end Renewals

/-! ## A custody with an outcome on record -/

/-- Nothing has been sent yet. -/
def RefreshStage.Unsent : RefreshStage → Prop
  | spawned | loaded _ | granted _ => True
  | _ => False

namespace Renewals

/-- The deadline that a success draws is the expiry in the row. -/
def deadline (s : Renewals) : RenewalOp → Bool
  | .join custody now draw =>
    match s.task custody with
    | .written r => nextRefreshAt now r.lifetimeSecs draw = r.expiresAt
    | _ => true
  | _ => true

/-- The entry's schedule is promised to the row, or left to be written. -/
def Recorded (s : Renewals) (custody : CustodyId) : Prop :=
  ∃ st, s.broker.worker.scheduler.entries custody = some st ∧
    ((s.task custody).Unsent → s.Owes custody ∨ s.broker.Promises custody st.schedule)

variable {ring : KeyRing} {s : Renewals} {custody : CustodyId}

/-- The worker after a join. -/
theorem join_broker (ring : KeyRing) {outcome : Option RefreshOutcome} {now : Timestamp} {draw : Draw}
    (hj : s.Joins custody) : s.broker.step ring (.join custody outcome now draw) =
      { s.broker with worker := s.broker.worker.join custody outcome now draw } := by
  simp only [Broker.step]
  exact if_pos hj

/-- **An outcome goes on record.** -/
theorem recorded_join {now : Timestamp} {draw : Draw} (h : s.Timely) (hj : s.Joins custody)
    (ho : (s.task custody).outcome.isSome) (hd : s.deadline (.join custody now draw) = true) :
    (s.step ring (.join custody now draw)).Recorded custody := by
  obtain ⟨outcome, ho⟩ := Option.isSome_iff_exists.1 ho
  obtain ⟨⟨st, hst⟩, -⟩ := h.scheduled hj.1
  have hstep : s.step ring (.join custody now draw) = { s.setTask custody .spawned with
      broker := { s.broker with worker := s.broker.worker.join custody (some outcome) now draw } } := by
    rw [Renewals.step, if_pos hj, ho, ← join_broker ring hj]
  have hentry : (s.step ring (.join custody now draw)).broker.worker.scheduler.entries custody =
      (s.broker.worker.scheduler.record custody outcome now draw).1.entries custody := by
    rw [hstep]
    rfl
  have failed (hf : outcome.isSuccess = false) :
      (s.step ring (.join custody now draw)).Recorded custody := by
    obtain ⟨st', hst', hstatus⟩ := Scheduler.record_entry hst outcome now draw
    refine ⟨st', hentry.trans hst', fun _ => Or.inl ⟨st'.status, now, ?_⟩⟩
    rw [hstep]
    show _ ∈ KeepaliveWorker.actions _ _ _ _ (s.broker.worker.scheduler.record _ _ _ _).2
    rw [hstatus]
    exact List.mem_append_left _ (by simp [hf])
  cases ht : s.task custody with
  | written r =>
    rw [ht] at ho
    obtain rfl := Option.some.inj ho
    simp only [deadline, ht, decide_eq_true_eq] at hd
    refine ⟨⟨.ok, now.plusSecs r.lifetimeSecs, nextRefreshAt now r.lifetimeSecs draw, 0, false⟩,
      hentry.trans ?_, fun _ => Or.inr ?_⟩
    · rw [Scheduler.record, hst]
      exact (Scheduler.put_entries ..).trans (if_pos rfl)
    · have hp := h.sent custody r (by rw [ht]; rfl)
      rw [CustodyState.schedule, hd, hstep]
      exact hp.same rfl rfl
  | transient retryAfterSecs =>
    rw [ht] at ho
    obtain rfl := Option.some.inj ho
    exact failed rfl
  | permanent =>
    rw [ht] at ho
    obtain rfl := Option.some.inj ho
    exact failed rfl
  | _ =>
    rw [ht] at ho
    cases ho

/-- A task moves on; it has sent nothing that it had not. -/
theorem Recorded.setTask {c : CustodyId} {stage : RefreshStage} {newest : CustodyId → Bytes}
    (h : s.Recorded custody) (hunsent : stage.Unsent → (s.task c).Unsent) :
    ({ s.setTask c stage with newest } : Renewals).Recorded custody := by
  obtain ⟨st, hst, hp⟩ := h
  refine ⟨st, hst, fun hu => hp ?_⟩
  simp only [Renewals.setTask, Function.update_apply] at hu
  split_ifs at hu with hc
  · rw [hc]
    exact hunsent hu
  · exact hu

/-- Another custody is joined. -/
theorem Recorded.join {c : CustodyId} {outcome : Option RefreshOutcome} {now : Timestamp}
    {draw : Draw} (h : s.Recorded custody) (hj : s.Joins c)
    (hc : custody ≠ c ∨ outcome = none ∧ (s.task c).Unsent) :
    ({ s.setTask c .spawned with
      broker := s.broker.step ring (.join c outcome now draw) } : Renewals).Recorded custody := by
  obtain ⟨st, hst, hp⟩ := h
  rw [join_broker ring hj]
  refine ⟨st, ?_, fun hu => Or.inr ?_⟩
  · cases outcome with
    | none => exact hst
    | some outcome =>
      have hne : custody ≠ c := hc.resolve_right fun hn => by cases hn.1
      exact (Scheduler.record_entries_of_ne hne).trans hst
  · have hunsent : (s.task custody).Unsent := by
      by_cases heq : custody = c
      · rw [heq]
        exact (hc.resolve_left fun hne => hne heq).2
      · simpa only [Renewals.setTask, Function.update_of_ne heq] using hu
    -- a join finds nothing left to do
    rcases hp hunsent with ⟨status, now', hm⟩ | hp
    · rw [hj.2] at hm
      cases hm
    · exact hp.same rfl rfl

/-- **What is on record stays in step**, where every batch commits and every
    success draws the expiry. -/
theorem Recorded.step (h : s.Timely) (hr : s.Recorded custody) (op : RenewalOp)
    (hop : s.commits ring op = true) (hd : s.deadline op = true) :
    (s.step ring op).Recorded custody := by
  cases op with
  | broker op =>
    simp only [Renewals.step]
    split_ifs with href
    · exact hr
    · rw [Bool.not_eq_true] at href
      obtain ⟨st, hst, hp⟩ := hr
      obtain ⟨st', hst', hsame⟩ := Broker.step_schedule ring h.coherent href hst
      refine ⟨st', hst', fun hu => ?_⟩
      obtain ⟨hpromise, howes⟩ := h.broker href hop custody
      rw [hsame]
      rcases hp hu with ho | hp
      · exact (howes ho).imp_right fun hp => hp st hst
      · refine Or.inr ?_
        rcases hpromise _ hp with hp | ⟨-, hp⟩
        · exact hp
        · exact hp st hst
  | load c readFails =>
    simp only [Renewals.step]
    split_ifs with hl
    · exact hr.setTask fun _ => by rw [hl.2]; trivial
    · exact hr
  | answer c reply now =>
    simp only [Renewals.step]
    split
    · rename_i refreshTok ht
      exact hr.setTask fun _ => by rw [ht]; trivial
    · exact hr
  | send c =>
    simp only [Renewals.step]
    split
    · rename_i r ht
      have hin : c ∈ s.broker.worker.inflight := h.posted.running c (by rw [ht]; simp)
      have hb : s.broker.step ring
          (.renew c r.refreshTok r.accessTok r.expiresAt r.expiresAt r.now) =
          s.broker.sendCustody (r.write c) := by
        simp only [Broker.step]
        exact if_pos hin
      obtain ⟨st, hst, hp⟩ := hr
      refine ⟨st, by rw [hb]; exact hst, fun hu => ?_⟩
      simp only [Renewals.setTask, Function.update_apply] at hu
      split_ifs at hu with hc
      · exact hu.elim
      · rw [hb]
        refine (hp hu).imp id fun hp => ?_
        refine hp.sends_none (Broker.sends_custody s.broker (r.write c)) fun w hw => ?_
        cases hw
        exact if_neg (Ne.symm hc)
    · exact hr
  | acknowledge c =>
    simp only [Renewals.step]
    split
    · split_ifs
      · exact hr.setTask False.elim
      · exact hr.setTask False.elim
      · exact hr
    · exact hr
  | join c now draw =>
    by_cases hc : custody = c
    · subst hc
      by_cases hj : s.Joins custody ∧ (s.task custody).outcome.isSome
      · exact recorded_join h hj.1 hj.2 hd
      · simp only [Renewals.step]
        split_ifs with hj'
        · split
          · rename_i outcome ho
            exact absurd ⟨hj', by rw [ho]; rfl⟩ hj
          · exact hr
        · exact hr
    · simp only [Renewals.step]
      split_ifs with hj
      · split
        · exact hr.join hj (Or.inl hc)
        · exact hr
      · exact hr
  | panic c now draw =>
    simp only [Renewals.step]
    split_ifs with hj
    · split
      all_goals first
        | exact hr
        | rename_i ht
          exact hr.join hj (Or.inr ⟨rfl, by rw [ht]; trivial⟩)
    · exact hr

theorem Recorded.run {ops : List RenewalOp} (hr : s.Recorded custody) (h : s.Timely)
    (hops : Along (Renewals.step ring) (fun s op => s.commits ring op = true ∧ s.deadline op = true)
      s ops) :
    (run (Renewals.step ring) s ops).Timely ∧ (run (Renewals.step ring) s ops).Recorded custody := by
  induction ops generalizing s with
  | nil => exact ⟨h, hr⟩
  | cons op ops ih =>
    exact ih (Recorded.step h hr op hops.1.1 hops.1.2) (h.step op hops.1.1) hops.2

end Renewals

/-! ## A restart -/

section
variable {custody : CustodyId} {now : Timestamp}

/-- What the loop of `restore_keepalive_schedule` leaves of the one row of a
    custody. -/
theorem restore_fold (row : CustodySchedule) {n : ℕ} (rows : List (CustodySchedule × ℕ)) (s : Scheduler)
    (hone : ∀ r ∈ rows, r.1.custodyId = row.custodyId → r.1 = row) (hn : ∀ r ∈ rows, r.2 < n)
    (hthere : (∃ k < 30, s.entries row.custodyId = some ⟨row.status, row.accessExp,
        if row.nextRefresh.secs ≤ now.secs then now.plusSecs k else row.nextRefresh, 0, false⟩) ∨
      ∃ r ∈ rows, r.1.custodyId = row.custodyId) :
    ∃ k < 30, (rows.foldl (fun s r => s.insertRestored r.1.custodyId r.1.status r.1.accessExp
        (if r.1.nextRefresh.secs ≤ now.secs then now.plusSecs (r.2 * 30 / max n 1)
          else r.1.nextRefresh)) s).entries row.custodyId = some ⟨row.status, row.accessExp,
        if row.nextRefresh.secs ≤ now.secs then now.plusSecs k else row.nextRefresh, 0, false⟩ := by
  induction rows generalizing s with
  | nil =>
    rcases hthere with h | ⟨r, hr, -⟩
    · exact h
    · cases hr
  | cons r rows ih =>
    refine ih _ (fun r' hr' => hone r' (List.mem_cons_of_mem _ hr'))
      (fun r' hr' => hn r' (List.mem_cons_of_mem _ hr')) ?_
    by_cases hc : r.1.custodyId = row.custodyId
    · refine Or.inl ⟨r.2 * 30 / max n 1, ?_, ?_⟩
      · have hlt := hn r (List.mem_cons_self ..)
        rw [Nat.div_lt_iff_lt_mul (by omega)]
        omega
      · dsimp only
        rw [hone r (List.mem_cons_self ..) hc, Scheduler.insertRestored, Scheduler.put_entries,
          if_pos rfl]
    · rcases hthere with ⟨k, hk, hs⟩ | ⟨r', hr', hc'⟩
      · refine Or.inl ⟨k, hk, ?_⟩
        dsimp only
        rw [Scheduler.insertRestored, Scheduler.put_entries, if_neg (Ne.symm hc), hs]
      · refine Or.inr ⟨r', (List.mem_cons.1 hr').resolve_left ?_, hc'⟩
        rintro rfl
        exact hc hc'

/-- **What a boot schedules** from a row that is not dead: at its time, or
    within thirty seconds if that has passed. -/
theorem restore_entry {db : Db} {row : CustodyRecord} (hkey : UniqueOn (·.custodyId) db.custody)
    (hrow : db.findCustody custody = some row) (hlive : row.status ≠ .dead)
    (policy : KeepalivePolicy) (now : Timestamp) :
    ∃ k < 30, (restoreKeepaliveSchedule db (.new policy) now).entries custody =
      some ⟨row.status, row.accessExp,
        if row.nextRefresh.secs ≤ now.secs then now.plusSecs k else row.nextRefresh, 0, false⟩ := by
  obtain rfl := findCustody_id hrow
  set sched : CustodySchedule :=
    ⟨row.custodyId, row.accessExp, row.nextRefresh, row.status, row.failCount⟩ with hsched
  have hmem : sched ∈ db.liveCustodySchedules := by
    rw [Db.liveCustodySchedules, List.mem_insertionSort]
    exact List.mem_map.2 ⟨row, List.mem_filter.2 ⟨findCustody_mem hrow, decide_eq_true hlive⟩, rfl⟩
  have hone : ∀ r ∈ db.liveCustodySchedules, r.custodyId = sched.custodyId → r = sched := by
    intro r hr hc
    rw [Db.liveCustodySchedules, List.mem_insertionSort] at hr
    obtain ⟨c, hc', rfl⟩ := List.mem_map.1 hr
    have heq : c = row := hkey.eq_of_key (List.mem_filter.1 hc').1 (findCustody_mem hrow) hc
    rw [heq]
  refine restore_fold sched db.liveCustodySchedules.zipIdx (.new policy) (fun r hr => ?_)
    (fun r hr => ?_) (Or.inr ?_)
  · exact hone r.1 (List.fst_mem_of_mem_zipIdx hr)
  · have hlt := List.snd_lt_of_mem_zipIdx hr
    simpa using hlt
  · obtain ⟨i, hi, hget⟩ := List.getElem_of_mem hmem
    refine ⟨(sched, i), ?_, rfl⟩
    rw [List.mem_zipIdx_iff_getElem?]
    simp [hi, hget]

end

/-! ## Memory and disk -/

namespace Renewals

/-- **Memory and disk agree on a schedule.**  In every run in which every batch
    commits and every success draws the token's expiry, a custody with an
    outcome on record has, between two ticks with the queue drained, a row with
    the schedule of its entry, and a restart before its time keeps that time. -/
theorem schedules_agree (ring : KeyRing) (policy : SessionPolicy) (keepalive : KeepalivePolicy)
    (db : Db) (hdb : db.Integrity) (now : Timestamp) (newest : CustodyId → Bytes)
    (before later : List RenewalOp) (custody : CustodyId) (t : Timestamp) (draw : Draw)
    (hrun : Along (step ring) (fun s op => s.commits ring op = true ∧ s.deadline op = true)
      (boot policy keepalive db now newest) (before ++ .join custody t draw :: later))
    (hjoin : (run (step ring) (boot policy keepalive db now newest) before).Joins custody ∧
      ((run (step ring) (boot policy keepalive db now newest) before).task custody).outcome.isSome) :
    let s := run (step ring) (boot policy keepalive db now newest)
      (before ++ .join custody t draw :: later)
    s.broker.worker.Idle → s.broker.queue = [] →
      ∃ st row, s.broker.worker.scheduler.entries custody = some st ∧
        s.broker.db.findCustody custody = some row ∧ row.schedule = st.schedule ∧
        ∀ at_, st.status ≠ .dead → at_ < st.nextRefresh →
          ∃ st', (s.broker.restart at_).worker.scheduler.entries custody = some st' ∧
            st'.nextRefresh = st.nextRefresh := by
  intro s hidle hdrained
  obtain ⟨hbefore, hop, hlater⟩ := along_append.1 hrun
  have htimely : (run (step ring) (boot policy keepalive db now newest) before).Timely :=
    along_invariant (fun s op h hop => h.step op hop.1) (timely_boot policy keepalive hdb now newest)
      hbefore
  have hend : s.Timely ∧ s.Recorded custody := by
    have hfirst := htimely.step _ hop.1
    have hdrawn : (step ring _ (.join custody t draw)).Recorded custody :=
      recorded_join htimely hjoin.1 hjoin.2 hop.2
    rw [show s = _ from run_append before _]
    exact hdrawn.run hfirst hlater
  obtain ⟨hs, st, hst, hp⟩ := hend
  -- between two ticks no task is under way, and nothing is left to do
  have hspawned : s.task custody = .spawned := by
    by_contra hne
    have hin := hs.posted.running custody hne
    rw [hidle.2.1] at hin
    cases hin
  have hpromise : s.broker.Promises custody st.schedule := by
    refine (hp (by rw [hspawned]; trivial)).resolve_left ?_
    rintro ⟨status, now, hm⟩
    rw [hidle.2.2] at hm
    cases hm
  obtain ⟨row, hrow, hsched⟩ := hpromise
  rw [hdrained, scheduleAfter_nil] at hsched
  refine ⟨st, row, hst, hrow, hsched, fun at_ hlive hlt => ?_⟩
  obtain ⟨hstatus, -, hnext⟩ := Schedule.mk.inj hsched
  obtain ⟨k, -, hentry⟩ := restore_entry hs.coherent.integrity.custodyKey hrow (hstatus ▸ hlive)
    s.broker.worker.scheduler.policy at_
  refine ⟨_, hentry, ?_⟩
  dsimp only
  rw [hnext]
  exact if_neg (not_le.2 (Timestamp.lt_iff.1 hlt))

/-- A login, and a first renewal that comes out as `reply`. -/
def firstTick (reply : UpstreamReply) : List RenewalOp :=
  let row : FullCustodyRow := ⟨⟨"c"⟩, "alice", [97], [120], ⟨1⟩, none, .ok, ⟨1⟩, 0, ⟨0⟩, "p"⟩
  [.broker (.takeCustody row), .broker (.commit 1 false false), .broker (.schedule ⟨"c"⟩ ⟨0⟩ 1),
    .broker (.accept ⟨id, id⟩), .broker (.tick ⟨1⟩), .broker .dispatch, .load ⟨"c"⟩ false,
    .answer ⟨"c"⟩ reply ⟨1⟩, .send ⟨"c"⟩, .broker (.commit 1 false false), .acknowledge ⟨"c"⟩]

/-- Joined at one, and the queue drained. -/
def lastOutcome (draw : Draw) : List RenewalOp :=
  [.join ⟨"c"⟩ ⟨1⟩ draw, .broker (.act []), .broker (.act []), .broker (.commit 2 false false)]

/-- A success, with the lead of the default policy: the scheduler renews at 37,
    the row and a restart say 61. -/
theorem schedules_disagree :
    let s := run (step ⟨1, [1]⟩) (boot {} {} (.fresh ⟨0⟩) ⟨0⟩ fun _ => [97])
      (firstTick (.granted ⟨[121], none, 60⟩) ++ lastOutcome ⟨fun secs => secs * 3 / 5, id⟩)
    s.broker.worker.Idle ∧ s.broker.queue = [] ∧
      (s.broker.worker.scheduler.entries ⟨"c"⟩).map (·.nextRefresh) = some ⟨37⟩ ∧
      (s.broker.db.findCustody ⟨"c"⟩).map (·.nextRefresh) = some ⟨61⟩ ∧
      ((s.broker.restart ⟨2⟩).worker.scheduler.entries ⟨"c"⟩).map (·.nextRefresh) = some ⟨61⟩ := by
  decide

/-- At a concrete run: a transient failure. -/
theorem schedules_agree_transient :
    let s := run (step ⟨1, [1]⟩) (boot {} {} (.fresh ⟨0⟩) ⟨0⟩ fun _ => [97])
      (firstTick (.transient (some 5)) ++ lastOutcome ⟨id, id⟩)
    ∃ st row, s.broker.worker.scheduler.entries ⟨"c"⟩ = some st ∧
      s.broker.db.findCustody ⟨"c"⟩ = some row ∧ row.schedule = st.schedule := by
  intro s
  obtain ⟨st, row, hst, hrow, hsame, -⟩ := schedules_agree ⟨1, [1]⟩ {} {} (.fresh ⟨0⟩)
    (Db.integrity_fresh ⟨0⟩) ⟨0⟩ (fun _ => [97]) (firstTick (.transient (some 5)))
    [.broker (.act []), .broker (.act []), .broker (.commit 2 false false)] ⟨"c"⟩ ⟨1⟩ ⟨id, id⟩
    (by decide) (by decide) (by decide) (by decide)
  exact ⟨st, row, hst, hrow, hsame⟩

end Renewals

end SessionBroker
