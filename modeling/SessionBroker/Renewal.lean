/-
  Renewing a grant (`OidcUpstream::refresh` in `custody.rs`), step by step, in
  the broker.

  * the task of a custody in flight reads its row, calls the provider, writes
    the new tokens through, waits for the acknowledgement and reports;
  * what the provider answers is free.  `newest` is the refresh token it has
    issued last for the grant of a custody;
  * the channel of a write in flight cannot panic, everything before it may;
  * the broker makes a step of its own or none (`step_broker`), so that what
    holds in every run of it holds here.
-/
import SessionBroker.CustodyRows
import SessionBroker.Grants

namespace SessionBroker

open Runs

/-! ## One refresh -/

/-- `RefreshedGrant` of `oauth.rs`. -/
structure RefreshedGrant where
  accessToken : Bytes
  rotatedRefreshToken : Option Bytes
  lifetimeSecs : ℕ
deriving DecidableEq, Repr

/-- How `client_for_refresh` and `refresh_grant` come out. -/
inductive UpstreamReply where
  | gone
  | unavailable
  /-- The provider has granted, and its answer never arrives. -/
  | lost (rotatedRefreshToken : Option Bytes)
  /-- Any other transient failure; `OidcUpstream` has no `Retry-After`. -/
  | transient (retryAfterSecs : Option ℕ)
  | permanent
  | granted (grant : RefreshedGrant)
deriving DecidableEq, Repr

/-- A renewed grant on its way into the store. -/
structure Renewal where
  refreshTok : Bytes
  accessTok : Bytes
  expiresAt : Timestamp
  lifetimeSecs : ℕ
  rotatedRefresh : Bool
  now : Timestamp
deriving DecidableEq, Repr

/-- Its write: the next refresh is put at the token's expiry. -/
def Renewal.write (r : Renewal) (custody : CustodyId) : CustodyWrite :=
  .success custody r.refreshTok r.accessTok r.expiresAt r.expiresAt r.now

/-- Where `refresh` is. -/
inductive RefreshStage where
  | spawned
  | loaded (refreshTok : Bytes)
  | granted (r : Renewal)
  /-- Blocked in `write_custody`. -/
  | writing (ack : ℕ) (r : Renewal)
  | written (r : Renewal)
  | transient (retryAfterSecs : Option ℕ)
  | permanent
deriving DecidableEq, Repr

/-- What `refresh` returns, once it has. -/
def RefreshStage.outcome : RefreshStage → Option RefreshOutcome
  | written r => some (.success r.lifetimeSecs r.rotatedRefresh)
  | transient retryAfterSecs => some (.transient retryAfterSecs)
  | permanent => some .permanent
  | _ => none

/-- `String::from_utf8` goes through. -/
def validUtf8 (bytes : Bytes) : Bool := ByteArray.validateUTF8 ⟨bytes.toArray⟩

/-- `refresh` up to the call on the provider. -/
def loadStage (ring : KeyRing) (row : Option CustodyRecord) (readFails : Bool) : RefreshStage :=
  if readFails then .transient none
  else match row with
    | none => .permanent
    | some row =>
      match row.tokens ring with
      | (some refreshTok, some _) => if validUtf8 refreshTok then .loaded refreshTok else .permanent
      | _ => .transient none

/-- What `refresh` makes of the answer. -/
def UpstreamReply.stage (refreshTok : Bytes) (now : Timestamp) : UpstreamReply → RefreshStage
  | gone => .permanent
  | unavailable => .transient none
  | lost _ => .transient none
  | transient retryAfterSecs => .transient retryAfterSecs
  | permanent => .permanent
  | granted grant => .granted {
      refreshTok := grant.rotatedRefreshToken.getD refreshTok
      accessTok := grant.accessToken
      expiresAt := now.plusSecs grant.lifetimeSecs
      lifetimeSecs := grant.lifetimeSecs
      rotatedRefresh := grant.rotatedRefreshToken.isSome
      now }

/-- The refresh token that the provider has issued with its answer. -/
def UpstreamReply.issued : UpstreamReply → Option Bytes
  | lost rotatedRefreshToken => rotatedRefreshToken
  | granted grant => grant.rotatedRefreshToken
  | _ => none

/-! ## Refreshes in the broker -/

/-- The channel a custody write is acknowledged on. -/
def Command.custodyAck : Command → Option ℕ
  | custody _ ack => some ack
  | _ => none

structure Renewals where
  broker : Broker
  newest : CustodyId → Bytes
  /-- the task of a custody in flight; `spawned` for any other -/
  task : CustodyId → RefreshStage

/-- A step the refresh tasks make, or its join. -/
def BrokerOp.refreshes : BrokerOp → Bool
  | renew .. | join .. => true
  | _ => false

inductive RenewalOp where
  /-- A step of the logins, the worker or the writer. -/
  | broker (op : BrokerOp)
  | load (custody : CustodyId) (readFails : Bool)
  | answer (custody : CustodyId) (reply : UpstreamReply) (now : Timestamp)
  /-- `write_custody` sends. -/
  | send (custody : CustodyId)
  /-- `write_custody` returns. -/
  | acknowledge (custody : CustodyId)
  | join (custody : CustodyId) (now : Timestamp) (draw : Draw)
  /-- The task panics, and is joined. -/
  | panic (custody : CustodyId) (now : Timestamp) (draw : Draw)

namespace Renewals

def boot (policy : SessionPolicy) (keepalive : KeepalivePolicy) (db : Db) (now : Timestamp)
    (newest : CustodyId → Bytes) : Renewals :=
  ⟨Broker.boot policy keepalive db now, newest, fun _ => .spawned⟩

def setTask (s : Renewals) (custody : CustodyId) (stage : RefreshStage) : Renewals :=
  { s with task := Function.update s.task custody stage }

/-- In flight, and nothing of an earlier outcome left to do. -/
def Joins (s : Renewals) (custody : CustodyId) : Prop :=
  custody ∈ s.broker.worker.inflight ∧ s.broker.worker.todo = []

instance (s : Renewals) (custody : CustodyId) : Decidable (s.Joins custody) :=
  inferInstanceAs (Decidable (_ ∧ _))

variable (ring : KeyRing)

/-- One step; a step that cannot be taken leaves everything alone. -/
def step (s : Renewals) : RenewalOp → Renewals
  | .broker op => if op.refreshes then s else { s with broker := s.broker.step ring op }
  | .load custody readFails =>
    if custody ∈ s.broker.worker.inflight ∧ s.task custody = .spawned then
      s.setTask custody (loadStage ring (s.broker.db.findCustody custody) readFails)
    else s
  | .answer custody reply now =>
    match s.task custody with
    | .loaded refreshTok =>
      { s.setTask custody (reply.stage refreshTok now) with
        newest := Function.update s.newest custody (reply.issued.getD (s.newest custody)) }
    | _ => s
  | .send custody =>
    match s.task custody with
    | .granted r =>
      { s.setTask custody (.writing s.broker.nextAck r) with
        broker := s.broker.step ring
          (.renew custody r.refreshTok r.accessTok r.expiresAt r.expiresAt r.now) }
    | _ => s
  | .acknowledge custody =>
    match s.task custody with
    | .writing ack r =>
      if ack ∈ s.broker.durable then s.setTask custody (.written r)
      else if ∀ cmd ∈ s.broker.queue, cmd.custodyAck ≠ some ack then s.setTask custody (.transient none)
      else s
    | _ => s
  | .join custody now draw =>
    if s.Joins custody then
      match (s.task custody).outcome with
      | some outcome =>
        { s.setTask custody .spawned with
          broker := s.broker.step ring (.join custody (some outcome) now draw) }
      | none => s
    else s
  | .panic custody now draw =>
    if s.Joins custody then
      match s.task custody with
      | .spawned | .loaded _ | .granted _ =>
        { s.setTask custody .spawned with
          broker := s.broker.step ring (.join custody none now draw) }
      | _ => s
    else s

end Renewals

/-! ## What a step of the broker sends -/

/-- The custody that a `Success` is of. -/
def CustodyWrite.renews : CustodyWrite → Option CustodyId
  | success custody .. => some custody
  | _ => none

namespace Broker

/-- A step that is not a commit: commands on no custody, or one custody write
    on a channel of its own. -/
structure Sends (s s' : Broker) (write : Option CustodyWrite) : Prop where
  db : s'.db = s.db
  applied : s'.applied = s.applied
  durable : s'.durable = s.durable
  nextAck : s'.nextAck = s.nextAck + write.elim 0 fun _ => 1
  queue : ∃ cmds, s'.queue = s.queue ++ cmds ∧
    write.elim (∀ cmd ∈ cmds, cmd.custodyAck = none ∧ ¬ cmd.Reaps) fun w =>
      cmds = [.custody w s.nextAck]

variable {ring : KeyRing} {s : Broker} {op : BrokerOp}

theorem sends_nothing {s' : Broker} (hdb : s'.db = s.db) (happlied : s'.applied = s.applied)
    (hdurable : s'.durable = s.durable) (hnext : s'.nextAck = s.nextAck)
    (hqueue : s'.queue = s.queue) : s.Sends s' none :=
  ⟨hdb, happlied, hdurable, hnext, [], by simp [hqueue], by simp⟩

theorem sends_sessions (s : Broker) (m : SessionMap) : s.Sends (s.onSessions m) none := by
  refine ⟨rfl, rfl, rfl, rfl, _, rfl, fun cmd hc => ?_⟩
  obtain ⟨c, -, rfl⟩ := List.mem_map.1 hc
  exact ⟨rfl, id⟩

theorem sends_custody (s : Broker) (write : CustodyWrite) :
    s.Sends (s.sendCustody write) (some write) :=
  ⟨rfl, rfl, rfl, rfl, _, rfl, rfl⟩

/-- What an effect sends: a `Failure`, or session commands. -/
theorem perform_sends (s : Broker) (order : List Sid) (action : WorkerAction) :
    ∃ write, s.Sends (s.perform order action) write ∧ ∀ w ∈ write, w.renews = none := by
  cases action with
  | persistFailure custody status now =>
    simp only [perform]
    split
    · exact ⟨none, sends_nothing rfl rfl rfl rfl rfl, by simp⟩
    · exact ⟨some _, sends_custody s _, by simp [CustodyWrite.renews]⟩
  | setCustodyStatus custody status => exact ⟨none, sends_sessions s _, by simp⟩
  | tombstoneByCustody custody now => exact ⟨none, sends_sessions s _, by simp⟩

/-- What the others send: the `Insert` of a login, or session commands. -/
theorem login_sends (ring : KeyRing) (s : Broker) (hop : op.refreshes = false)
    (hcommit : ∀ count b c, op ≠ .commit count b c) (hact : ∀ order, op ≠ .act order) :
    ∃ write, s.Sends (s.step ring op) write ∧ ∀ w ∈ write, ∃ row, w = .insert row := by
  cases op with
  | takeCustody row =>
    simp only [step]
    split_ifs
    · exact ⟨some _, ⟨rfl, rfl, rfl, rfl, _, rfl, rfl⟩, by simp⟩
    · exact ⟨none, sends_nothing rfl rfl rfl rfl rfl, by simp⟩
  | schedule custody issuedAt lifetimeSecs =>
    refine ⟨none, ?_, by simp⟩
    simp only [step]
    split
    · split_ifs <;> exact sends_nothing rfl rfl rfl rfl rfl
    · exact sends_nothing rfl rfl rfl rfl rfl
  | create sid custody sub token now =>
    refine ⟨none, ?_, by simp⟩
    simp only [step]
    split_ifs
    · have hs := sends_sessions s (s.sessions.create sid custody sub token now).1
      exact ⟨rfl, rfl, rfl, rfl, hs.queue⟩
    · exact sends_nothing rfl rfl rfl rfl rfl
  | accept draw =>
    refine ⟨none, ?_, by simp⟩
    simp only [step]
    split_ifs
    · split <;> exact sends_nothing rfl rfl rfl rfl rfl
    · exact sends_nothing rfl rfl rfl rfl rfl
  | tick now =>
    refine ⟨none, ?_, by simp⟩
    simp only [step]
    split_ifs <;> exact sends_nothing rfl rfl rfl rfl rfl
  | dispatch =>
    refine ⟨none, ?_, by simp⟩
    simp only [step]
    split_ifs <;> exact sends_nothing rfl rfl rfl rfl rfl
  | act order => exact absurd rfl (hact order)
  | commit count b c => exact absurd rfl (hcommit count b c)
  | renew => cases hop
  | join => cases hop

/-- **What logins and the worker send**: no `Success`. -/
theorem step_sends (ring : KeyRing) (s : Broker) (hop : op.refreshes = false)
    (hcommit : ∀ count b c, op ≠ .commit count b c) :
    ∃ write, s.Sends (s.step ring op) write ∧ ∀ w ∈ write, w.renews = none := by
  by_cases hact : ∃ order, op = .act order
  · obtain ⟨order, rfl⟩ := hact
    simp only [step]
    split
    · exact ⟨none, sends_nothing rfl rfl rfl rfl rfl, by simp⟩
    · rename_i action todo _
      obtain ⟨write, h, hw⟩ := perform_sends { s with worker := { s.worker with todo } } order action
      exact ⟨write, ⟨h.db, h.applied, h.durable, h.nextAck, h.queue⟩, hw⟩
  · obtain ⟨write, h, hw⟩ := login_sends ring s hop hcommit fun order ho => hact ⟨order, ho⟩
    refine ⟨write, h, fun w hm => ?_⟩
    obtain ⟨row, rfl⟩ := hw w hm
    rfl

/-- Only a join ends a refresh. -/
theorem step_inflight (ring : KeyRing) (s : Broker) (hop : op.refreshes = false) :
    s.worker.inflight = (s.step ring op).worker.inflight ∨
      s.worker.inflight = [] ∧ s.worker.todo = [] := by
  cases op with
  | schedule custody issuedAt lifetimeSecs =>
    simp only [step]
    split
    · split_ifs <;> exact Or.inl rfl
    · exact Or.inl rfl
  | accept draw =>
    simp only [step]
    split_ifs
    · split <;> exact Or.inl rfl
    · exact Or.inl rfl
  | dispatch =>
    simp only [step]
    split_ifs with hi
    · exact Or.inr hi
    · exact Or.inl rfl
  | act order =>
    simp only [step]
    split
    · exact Or.inl rfl
    · rw [perform_worker]
      exact Or.inl rfl
  | commit count b c => exact Or.inl rfl
  | renew => cases hop
  | join => cases hop
  | _ =>
    simp only [step]
    split_ifs <;> exact Or.inl rfl

/-! ### Acknowledgement channels -/

/-- Every custody write has a channel of its own. -/
structure Channels (s : Broker) : Prop where
  acks : (s.queue.filterMap Command.custodyAck).Nodup
  issued : ∀ ack ∈ s.queue.filterMap Command.custodyAck, ack < s.nextAck
  durable : ∀ ack ∈ s.durable, ack < s.nextAck ∧ ack ∉ s.queue.filterMap Command.custodyAck

theorem mem_custodyAcks {cmds : List Command} {ack : ℕ} :
    ack ∈ cmds.filterMap Command.custodyAck ↔ ∃ write, .custody write ack ∈ cmds := by
  rw [List.mem_filterMap]
  constructor
  · rintro ⟨cmd, hc, ha⟩
    cases cmd with
    | custody write a =>
      obtain rfl := Option.some.inj ha
      exact ⟨write, hc⟩
    | _ => cases ha
  · rintro ⟨write, hc⟩
    exact ⟨_, hc, rfl⟩

theorem Sends.acks {s' : Broker} {write : Option CustodyWrite} (hs : s.Sends s' write) :
    s'.queue.filterMap Command.custodyAck =
      s.queue.filterMap Command.custodyAck ++ write.elim [] fun _ => [s.nextAck] := by
  obtain ⟨cmds, hq, hc⟩ := hs.queue
  rw [hq, List.filterMap_append]
  cases write with
  | none =>
    congr 1
    exact List.filterMap_eq_nil_iff.2 fun cmd hm => (hc cmd hm).1
  | some w =>
    obtain rfl : cmds = [.custody w s.nextAck] := hc
    rfl

theorem Channels.sends {s' : Broker} {write : Option CustodyWrite} (h : s.Channels)
    (hs : s.Sends s' write) : s'.Channels := by
  have hfresh : s.nextAck ∉ s.queue.filterMap Command.custodyAck := fun hm =>
    absurd (h.issued _ hm) (lt_irrefl _)
  cases write with
  | none =>
    have hacks : s'.queue.filterMap Command.custodyAck = s.queue.filterMap Command.custodyAck := by
      rw [hs.acks, Option.elim_none, List.append_nil]
    have hnext : s'.nextAck = s.nextAck := hs.nextAck
    exact ⟨hacks ▸ h.acks, hacks ▸ hnext ▸ h.issued, hs.durable ▸ hacks ▸ hnext ▸ h.durable⟩
  | some w =>
    have hacks : s'.queue.filterMap Command.custodyAck =
        s.queue.filterMap Command.custodyAck ++ [s.nextAck] := hs.acks
    have hnext : s'.nextAck = s.nextAck + 1 := hs.nextAck
    refine ⟨?_, fun ack ha => ?_, fun ack ha => ?_⟩
    · rw [hacks, ← List.concat_eq_append]
      exact h.acks.concat hfresh
    · rw [hacks, List.mem_append, List.mem_singleton] at ha
      rcases ha with ha | rfl
      · have := h.issued ack ha
        omega
      · omega
    · rw [hs.durable] at ha
      obtain ⟨hlt, hno⟩ := h.durable ack ha
      rw [hacks, List.mem_append, List.mem_singleton, not_or]
      exact ⟨by omega, hno, by omega⟩

/-- **What a commit does**: the batch leaves the queue, and is lost, or applied. -/
theorem commit_spec (ring : KeyRing) (s : Broker) (count : ℕ) (beginFails commitFails : Bool) :
    ∃ db applied durable, s.step ring (.commit count beginFails commitFails) =
        { s with queue := s.queue.drop count, db, applied, durable } ∧
      (∀ ack ∈ durable, ack ∈ s.durable ∨ ∃ write, .custody write ack ∈ s.queue.take count) ∧
      (db = s.db ∧ durable = s.durable ∨
        Transaction.applyAll (Db.apply ring) s.db (s.queue.take count) = some db) := by
  rcases commit_cases ring s count beginFails commitFails with hs | ⟨db, acks, ha, hacks, hs⟩
  · exact ⟨s.db, s.applied, s.durable, hs, fun ack hm => Or.inl hm, Or.inl ⟨rfl, rfl⟩⟩
  · refine ⟨db, _, _, hs, fun ack hm => ?_, Or.inr ha⟩
    exact (List.mem_append.1 hm).imp_right (hacks ack)

/-- The channels of a batch are not those of the queue behind it. -/
theorem Channels.commit {count : ℕ} {db : Db} {applied : List Command} {durable : List ℕ}
    (h : s.Channels) (hdurable : ∀ ack ∈ durable,
      ack ∈ s.durable ∨ ∃ write, .custody write ack ∈ s.queue.take count) :
    ({ s with queue := s.queue.drop count, db, applied, durable } : Broker).Channels := by
  have hsplit : s.queue.filterMap Command.custodyAck =
      (s.queue.take count).filterMap Command.custodyAck ++
        (s.queue.drop count).filterMap Command.custodyAck := by
    rw [← List.filterMap_append, List.take_append_drop]
  have hnodup := h.acks
  rw [hsplit, List.nodup_append] at hnodup
  have hdrop : ∀ ack ∈ (s.queue.drop count).filterMap Command.custodyAck,
      ack ∈ s.queue.filterMap Command.custodyAck := fun ack ha => by
    rw [hsplit]
    exact List.mem_append_right _ ha
  refine ⟨hnodup.2.1, fun ack ha => h.issued ack (hdrop ack ha), fun ack ha => ?_⟩
  rcases hdurable ack ha with ha | ha
  · exact ⟨(h.durable ack ha).1, fun hm => (h.durable ack ha).2 (hdrop ack hm)⟩
  · have htake := mem_custodyAcks.2 ha
    refine ⟨h.issued ack (hsplit ▸ List.mem_append_left _ htake), fun hm => ?_⟩
    exact hnodup.2.2 ack htake ack hm rfl

end Broker

/-! ## The broker in it -/

namespace Renewals

variable {ring : KeyRing} {s : Renewals}

variable (ring s) in
/-- **The broker makes a step of its own, or none.** -/
theorem step_broker (op : RenewalOp) : (s.step ring op).broker = s.broker ∨
    ∃ bop, (s.step ring op).broker = s.broker.step ring bop := by
  cases op with
  | broker op =>
    simp only [step]
    split_ifs
    · exact Or.inl rfl
    · exact Or.inr ⟨op, rfl⟩
  | load c readFails =>
    simp only [step]
    split_ifs <;> exact Or.inl rfl
  | answer c reply now =>
    simp only [step]
    split <;> exact Or.inl rfl
  | send c =>
    simp only [step]
    split
    · rename_i r _
      exact Or.inr ⟨.renew c r.refreshTok r.accessTok r.expiresAt r.expiresAt r.now, rfl⟩
    · exact Or.inl rfl
  | acknowledge c =>
    simp only [step]
    split
    · split_ifs <;> exact Or.inl rfl
    · exact Or.inl rfl
  | join c now draw =>
    simp only [step]
    split_ifs
    · split
      · rename_i outcome _
        exact Or.inr ⟨.join c (some outcome) now draw, rfl⟩
      · exact Or.inl rfl
    · exact Or.inl rfl
  | panic c now draw =>
    simp only [step]
    split_ifs
    · split
      all_goals first | exact Or.inl rfl | exact Or.inr ⟨.join c none now draw, rfl⟩
    · exact Or.inl rfl

theorem coherent_step (h : s.broker.Coherent) (op : RenewalOp) :
    (s.step ring op).broker.Coherent := by
  rcases s.step_broker ring op with hb | ⟨bop, hb⟩
  · rw [hb]
    exact h
  · rw [hb]
    exact h.step bop

/-- What logins, worker and writer agree on, refreshes being between them. -/
theorem coherent_run (h : s.broker.Coherent) (ops : List RenewalOp) :
    (run (step ring) s ops).broker.Coherent := by
  induction ops generalizing s with
  | nil => exact h
  | cons op ops ih => exact ih (coherent_step h op)

/-! ## What a refresh has under way -/

/-- Every `Success` in the queue is that of a task which waits for it. -/
structure Posted (s : Renewals) : Prop where
  channels : s.broker.Channels
  running : ∀ c, s.task c ≠ .spawned → c ∈ s.broker.worker.inflight
  waits : ∀ c ack r, s.task c = .writing ack r → ack < s.broker.nextAck ∧
    ∀ w, .custody w ack ∈ s.broker.queue → w = r.write c
  owner : ∀ c w ack, .custody w ack ∈ s.broker.queue → w.renews = some c →
    ∃ r, s.task c = .writing ack r
  unreaped : ∀ cmd ∈ s.broker.queue, ¬ cmd.Reaps

theorem Posted.sends {b : Broker} {write : Option CustodyWrite} (h : s.Posted)
    (hs : s.broker.Sends b write) (hw : ∀ w ∈ write, w.renews = none)
    (hin : ∀ c, s.task c ≠ .spawned → c ∈ b.worker.inflight) :
    ({ s with broker := b } : Renewals).Posted := by
  have hqueue : ∀ w ack, .custody w ack ∈ b.queue → .custody w ack ∈ s.broker.queue ∨
      ack = s.broker.nextAck ∧ w.renews = none := by
    intro w ack hm
    obtain ⟨cmds, hq, hc⟩ := hs.queue
    rw [hq, List.mem_append] at hm
    refine hm.imp_right fun hm => ?_
    cases write with
    | none =>
      have hno := (hc _ hm).1
      cases hno
    | some w' =>
      obtain rfl : cmds = [.custody w' s.broker.nextAck] := hc
      cases List.mem_singleton.1 hm
      exact ⟨rfl, hw w rfl⟩
  refine ⟨h.channels.sends hs, hin, fun c ack r ht => ?_, fun c w ack hm hr => ?_, fun cmd hm => ?_⟩
  · obtain ⟨hlt, hmine⟩ := h.waits c ack r ht
    refine ⟨lt_of_lt_of_le hlt (hs.nextAck ▸ Nat.le_add_right _ _), fun w hm => ?_⟩
    rcases hqueue w ack hm with hm | ⟨rfl, -⟩
    · exact hmine w hm
    · exact absurd hlt (lt_irrefl _)
  · rcases hqueue w ack hm with hm | ⟨-, hno⟩
    · exact h.owner c w ack hm hr
    · rw [hno] at hr
      cases hr
  · obtain ⟨cmds, hq, hc⟩ := hs.queue
    rw [hq, List.mem_append] at hm
    rcases hm with hm | hm
    · exact h.unreaped cmd hm
    · cases write with
      | none => exact (hc cmd hm).2
      | some w =>
        obtain rfl : cmds = [.custody w s.broker.nextAck] := hc
        rw [List.mem_singleton.1 hm]
        exact id

/-- A task gets on: it waits for nothing in the queue, before or after. -/
theorem Posted.setTask {c : CustodyId} {stage : RefreshStage} (h : s.Posted)
    (hin : c ∈ s.broker.worker.inflight)
    (hold : ∀ ack r, s.task c = .writing ack r →
      ack ∉ s.broker.queue.filterMap Command.custodyAck)
    (hnew : ∀ ack r, stage ≠ .writing ack r) : (s.setTask c stage).Posted where
  channels := h.channels
  running := by
    intro c' ht
    by_cases hc : c' = c
    · rw [hc]
      exact hin
    · simp only [Renewals.setTask, Function.update_of_ne hc] at ht
      exact h.running c' ht
  waits := by
    intro c' ack r ht
    simp only [Renewals.setTask, Function.update_apply] at ht
    split_ifs at ht with hc
    · exact absurd ht (hnew ack r)
    · exact h.waits c' ack r ht
  owner := by
    intro c' w ack hm hr
    obtain ⟨r, ht⟩ := h.owner c' w ack hm hr
    refine ⟨r, ?_⟩
    have hc : c' ≠ c := by
      rintro rfl
      exact hold ack r ht (Broker.mem_custodyAcks.2 ⟨w, hm⟩)
    simp only [Renewals.setTask, Function.update_of_ne hc]
    exact ht
  unreaped := h.unreaped

/-- The new tokens go to the writer. -/
theorem Posted.send {c : CustodyId} {r : Renewal} (h : s.Posted) (ht : s.task c = .granted r) :
    ({ s.setTask c (.writing s.broker.nextAck r) with
      broker := s.broker.sendCustody (r.write c) } : Renewals).Posted where
  channels := h.channels.sends (Broker.sends_custody s.broker (r.write c))
  running := by
    intro c' ht'
    show c' ∈ s.broker.worker.inflight
    by_cases hc : c' = c
    · rw [hc]
      exact h.running c (by rw [ht]; simp)
    · simp only [Renewals.setTask, Function.update_of_ne hc] at ht'
      exact h.running c' ht'
  waits := by
    intro c' ack r' ht'
    show ack < s.broker.nextAck + 1 ∧ ∀ w, _ ∈ s.broker.queue ++ [_] → _
    simp only [Renewals.setTask, Function.update_apply] at ht'
    split_ifs at ht' with hc
    · cases ht'
      refine ⟨Nat.lt_succ_self _, fun w hm => ?_⟩
      rcases List.mem_append.1 hm with hm | hm
      · have hissued := h.channels.issued _ (Broker.mem_custodyAcks.2 ⟨w, hm⟩)
        exact absurd hissued (lt_irrefl _)
      · cases List.mem_singleton.1 hm
        rw [hc]
    · obtain ⟨hlt, hmine⟩ := h.waits c' ack r' ht'
      refine ⟨by omega, fun w hm => ?_⟩
      rcases List.mem_append.1 hm with hm | hm
      · exact hmine w hm
      · cases List.mem_singleton.1 hm
        exact absurd hlt (lt_irrefl _)
  owner := by
    intro c' w ack hm hr
    have hm : .custody w ack ∈ s.broker.queue ++ [Command.custody (r.write c) s.broker.nextAck] := hm
    simp only [Renewals.setTask, Function.update_apply]
    rcases List.mem_append.1 hm with hm | hm
    · obtain ⟨r', ht'⟩ := h.owner c' w ack hm hr
      have hc : c' ≠ c := by
        rintro rfl
        rw [ht] at ht'
        cases ht'
      exact ⟨r', by rw [if_neg hc, ht']⟩
    · cases List.mem_singleton.1 hm
      obtain rfl : c = c' := Option.some.inj hr
      exact ⟨r, if_pos rfl⟩
  unreaped := by
    intro cmd hm
    have hm : cmd ∈ s.broker.queue ++ [Command.custody (r.write c) s.broker.nextAck] := hm
    rcases List.mem_append.1 hm with hm | hm
    · exact h.unreaped cmd hm
    · rw [List.mem_singleton.1 hm]
      exact id

/-- A join ends one refresh. -/
theorem Posted.join {c : CustodyId} {outcome : Option RefreshOutcome} {now : Timestamp} {draw : Draw}
    (h : s.Posted) (hj : s.Joins c) (hold : ∀ ack r, s.task c ≠ .writing ack r) :
    ({ s.setTask c .spawned with
      broker := s.broker.step ring (.join c outcome now draw) } : Renewals).Posted := by
  have htask : (s.setTask c .spawned).Posted :=
    h.setTask hj.1 (fun ack r ht => absurd ht (hold ack r)) fun ack r hn => by cases hn
  have hb : s.broker.step ring (.join c outcome now draw) =
      { s.broker with worker := s.broker.worker.join c outcome now draw } := by
    simp only [Broker.step]
    exact if_pos hj
  rw [hb]
  refine htask.sends (Broker.sends_nothing rfl rfl rfl rfl rfl) (by simp) fun c' ht => ?_
  have hc : c' ≠ c := by
    rintro rfl
    exact ht (Function.update_self ..)
  have hin := htask.running c' ht
  have herase : (s.broker.worker.join c outcome now draw).inflight =
      s.broker.worker.inflight.erase c := by
    cases outcome <;> rfl
  show c' ∈ (s.broker.worker.join c outcome now draw).inflight
  rw [herase]
  exact (List.mem_erase_of_ne hc).2 hin

theorem Posted.commit (h : s.Posted) (count : ℕ) (beginFails commitFails : Bool) :
    ({ s with broker := s.broker.step ring (.commit count beginFails commitFails) } :
      Renewals).Posted := by
  obtain ⟨db, applied, durable, hs, hdurable, -⟩ :=
    Broker.commit_spec ring s.broker count beginFails commitFails
  rw [hs]
  refine ⟨h.channels.commit hdurable, h.running, fun c ack r ht => ?_, fun c w ack hm hr => ?_,
    fun cmd hm => h.unreaped cmd (List.mem_of_mem_drop hm)⟩
  · obtain ⟨hlt, hmine⟩ := h.waits c ack r ht
    exact ⟨hlt, fun w hm => hmine w (List.mem_of_mem_drop hm)⟩
  · exact h.owner c w ack (List.mem_of_mem_drop hm) hr

theorem loadStage_cases (ring : KeyRing) (row : Option CustodyRecord) (readFails : Bool) :
    (row.isSome ∧ ∃ refreshTok, loadStage ring row readFails = .loaded refreshTok) ∨
      loadStage ring row readFails = .transient none ∨ loadStage ring row readFails = .permanent := by
  unfold loadStage
  split_ifs
  · exact Or.inr (Or.inl rfl)
  · cases row with
    | none => exact Or.inr (Or.inr rfl)
    | some row =>
      dsimp only
      split
      · split_ifs
        · exact Or.inl ⟨rfl, _, rfl⟩
        · exact Or.inr (Or.inr rfl)
      · exact Or.inr (Or.inl rfl)

/-- **A step keeps the queue and the tasks in step.** -/
theorem Posted.step (h : s.Posted) (op : RenewalOp) : (s.step ring op).Posted := by
  have hwaits : ∀ {c : CustodyId} {stage}, s.task c = stage → (∀ ack r, stage ≠ .writing ack r) →
      ∀ ack r, s.task c ≠ .writing ack r := fun ht hno ack r ht' => hno ack r (ht.symm.trans ht')
  cases op with
  | broker op =>
    simp only [Renewals.step]
    split_ifs with hop
    · exact h
    · rw [Bool.not_eq_true] at hop
      by_cases hcommit : ∃ count b c, op = .commit count b c
      · obtain ⟨count, b, c, rfl⟩ := hcommit
        exact h.commit count b c
      · obtain ⟨write, hs, hw⟩ := Broker.step_sends ring s.broker hop
          fun count b c hc => hcommit ⟨count, b, c, hc⟩
        refine h.sends hs hw fun c ht => ?_
        rcases Broker.step_inflight ring s.broker hop with hi | ⟨hi, -⟩
        · exact hi ▸ h.running c ht
        · have hin := h.running c ht
          rw [hi] at hin
          cases hin
  | load c readFails =>
    simp only [Renewals.step]
    split_ifs with hl
    · refine h.setTask hl.1 (fun ack r ht => ?_) fun ack r hn => ?_
      · rw [hl.2] at ht
        cases ht
      · rcases loadStage_cases ring (s.broker.db.findCustody c) readFails with
          ⟨-, refreshTok, hs⟩ | hs | hs
        all_goals rw [hs] at hn; cases hn
    · exact h
  | answer c reply now =>
    simp only [Renewals.step]
    split
    · rename_i refreshTok ht
      have hposted : (s.setTask c (reply.stage refreshTok now)).Posted :=
        h.setTask (h.running c (by rw [ht]; simp)) (fun ack r ht' => by rw [ht] at ht'; cases ht')
          fun ack r => by cases reply <;> simp [UpstreamReply.stage]
      exact ⟨hposted.channels, hposted.running, hposted.waits, hposted.owner, hposted.unreaped⟩
    · exact h
  | send c =>
    simp only [Renewals.step]
    split
    · rename_i r ht
      have hin := h.running c (by rw [ht]; simp)
      have hb : s.broker.step ring
          (.renew c r.refreshTok r.accessTok r.expiresAt r.expiresAt r.now) =
          s.broker.sendCustody (r.write c) := by
        simp only [Broker.step]
        exact if_pos hin
      rw [hb]
      exact h.send ht
    · exact h
  | acknowledge c =>
    simp only [Renewals.step]
    split
    · rename_i ack r ht
      have hin := h.running c (by rw [ht]; simp)
      have hmine : ∀ ack' r', s.task c = .writing ack' r' → ack' = ack := by
        intro ack' r' ht'
        rw [ht] at ht'
        cases ht'
        rfl
      split_ifs with hd hno
      · refine h.setTask hin (fun ack' r' ht' => ?_) fun ack r hn => by cases hn
        rw [hmine ack' r' ht']
        exact (h.channels.durable ack hd).2
      · refine h.setTask hin (fun ack' r' ht' => ?_) fun ack r hn => by cases hn
        rw [hmine ack' r' ht', List.mem_filterMap]
        rintro ⟨cmd, hm, ha⟩
        exact hno cmd hm ha
      · exact h
    · exact h
  | join c now draw =>
    simp only [Renewals.step]
    split_ifs with hj
    · split
      · rename_i outcome ho
        refine h.join hj fun ack r ht => ?_
        rw [ht] at ho
        cases ho
      · exact h
    · exact h
  | panic c now draw =>
    simp only [Renewals.step]
    split_ifs with hj
    · split
      · rename_i ht
        exact h.join hj (hwaits ht fun ack r hn => by cases hn)
      · rename_i refreshTok ht
        exact h.join hj (hwaits ht fun ack r hn => by cases hn)
      · rename_i r ht
        exact h.join hj (hwaits ht fun ack r hn => by cases hn)
      · exact h
    · exact h

theorem posted_boot (policy : SessionPolicy) (keepalive : KeepalivePolicy) (db : Db) (now : Timestamp)
    (newest : CustodyId → Bytes) : (boot policy keepalive db now newest).Posted where
  channels := ⟨List.nodup_nil, fun _ h => absurd h List.not_mem_nil, fun _ h => absurd h List.not_mem_nil⟩
  running := fun c ht => absurd rfl ht
  waits := fun c ack r ht => by cases ht
  owner := fun c w ack hm => absurd hm List.not_mem_nil
  unreaped := fun cmd hm => absurd hm List.not_mem_nil

end Renewals

end SessionBroker
