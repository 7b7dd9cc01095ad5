/-
  Logins, the keepalive worker and the writer, step by step (`custody.rs`,
  `http/auth.rs`, `keepalive.rs`, `main.rs`).

  * a login writes its custody row, is told that it is durable, sends the
    schedule request and creates its session; each is one step;
  * the worker either accepts a request or ticks; a tick takes what is due in
    chunks and handles one outcome at a time, each of its effects being a step;
  * the writer applies what is queued, a batch at a time: `applied` is what it
    has committed, in order;
  * a `boot` knows the store alone.
-/
import SessionBroker.Scheduler
import SessionBroker.Batches

namespace SessionBroker

open Transaction

/-! ## The worker -/

/-- What `tick` does about one outcome, after `record`. -/
inductive WorkerAction where
  | setCustodyStatus (custody : CustodyId) (status : CustodyStatus)
  | persistFailure (custody : CustodyId) (status : CustodyStatus) (now : Timestamp)
  | tombstoneByCustody (custody : CustodyId) (now : Timestamp)
deriving DecidableEq, Repr

/-- `KeepaliveWorker`, with where its `tick` is: the chunks not dispatched, the
    refreshes in flight, and what is left to do about an outcome. -/
structure KeepaliveWorker where
  scheduler : Scheduler
  chunks : List (List CustodyId)
  inflight : List CustodyId
  todo : List WorkerAction

namespace KeepaliveWorker

/-- Between two turns of the loop in `run_keepalive`. -/
def Idle (w : KeepaliveWorker) : Prop := w.chunks = [] ∧ w.inflight = [] ∧ w.todo = []

instance (w : KeepaliveWorker) : Decidable w.Idle := inferInstanceAs (Decidable (_ ∧ _))

/-- `tick`, up to the first chunk. -/
def tick (w : KeepaliveWorker) (now : Timestamp) : KeepaliveWorker :=
  let r := w.scheduler.takeDue now
  { w with scheduler := r.1, chunks := r.2.toChunks (max w.scheduler.policy.maxConcurrent 1) }

/-- One chunk goes out. -/
def dispatch (w : KeepaliveWorker) : KeepaliveWorker :=
  match w.chunks with
  | [] => w
  | chunk :: chunks => { w with chunks, inflight := chunk }

/-- What `tick` does about an outcome, in order. -/
def actions (policy : KeepalivePolicy) (custody : CustodyId) (outcome : RefreshOutcome)
    (now : Timestamp) (status : Option CustodyStatus) : List WorkerAction :=
  (match status with
    | none => []
    | some status => .setCustodyStatus custody status ::
      if outcome.isSuccess then [] else [.persistFailure custody status now]) ++
  if outcome = .permanent ∧ policy.onUpstreamRevoked = .kill then [.tombstoneByCustody custody now]
  else []

/-- One task joined; `none` is a panic. -/
def join (w : KeepaliveWorker) (custody : CustodyId) (outcome : Option RefreshOutcome)
    (now : Timestamp) (draw : Draw) : KeepaliveWorker :=
  let inflight := w.inflight.erase custody
  match outcome with
  | none => { w with inflight }
  | some outcome =>
    let r := w.scheduler.record custody outcome now draw
    { w with
      scheduler := r.1
      inflight
      todo := actions w.scheduler.policy custody outcome now r.2 }

end KeepaliveWorker

/-! ## The broker -/

/-- `ScheduleRequest`. -/
structure ScheduleRequest where
  custody : CustodyId
  issuedAt : Timestamp
  lifetimeSecs : ℕ
deriving DecidableEq, Repr

/-- How far a login has got; `written` waits on an acknowledgement channel. -/
inductive LoginStage where
  | written (ack : ℕ)
  | scheduled
  | created
deriving DecidableEq, Repr

structure Broker where
  sessions : SessionMap
  worker : KeepaliveWorker
  /-- the schedule channel -/
  requests : List ScheduleRequest
  /-- where the login with this custody is -/
  login : CustodyId → Option LoginStage
  /-- the writer's channel -/
  queue : List Command
  db : Db
  applied : List Command
  /-- the acknowledgements that said durable -/
  durable : List ℕ
  nextAck : ℕ

inductive BrokerOp where
  /-- A login: `write_custody`. -/
  | takeCustody (row : FullCustodyRow)
  /-- Its row is durable: the schedule request. -/
  | schedule (custody : CustodyId) (issuedAt : Timestamp) (lifetimeSecs : ℕ)
  /-- `create`. -/
  | create (sid : Sid) (custody : CustodyId) (sub : String) (token : SessionToken) (now : Timestamp)
  /-- The worker takes a request from the channel. -/
  | accept (draw : Draw)
  | tick (now : Timestamp)
  | dispatch
  /-- A refresh in flight writes its new tokens. -/
  | renew (custody : CustodyId) (refreshTok accessTok : Bytes)
      (accessExp nextRefresh now : Timestamp)
  | join (custody : CustodyId) (outcome : Option RefreshOutcome) (now : Timestamp) (draw : Draw)
  /-- The next effect of an outcome; `order` is how an iteration visits the
      sessions. -/
  | act (order : List Sid)
  /-- The writer's next batch. -/
  | commit (count : ℕ) (beginFails commitFails : Bool)

namespace Broker

/-- A boot at `now`: the sessions by `rehydrate_sessions`, the schedule by
    `restore_keepalive_schedule`. -/
def boot (policy : SessionPolicy) (keepalive : KeepalivePolicy) (db : Db) (now : Timestamp) :
    Broker where
  sessions := SessionBroker.restart policy db.tables
  worker := ⟨restoreKeepaliveSchedule db (.new keepalive) now, [], [], []⟩
  requests := []
  login := fun _ => none
  queue := []
  db
  applied := []
  durable := []
  nextAck := 0

/-- A restart: only the store is left. -/
def restart (s : Broker) (now : Timestamp) : Broker :=
  boot s.sessions.policy s.worker.scheduler.policy s.db now

variable (ring : KeyRing)

/-- A custody write goes to the writer, with a channel of its own. -/
def sendCustody (s : Broker) (write : CustodyWrite) : Broker :=
  { s with queue := s.queue ++ [.custody write s.nextAck], nextAck := s.nextAck + 1 }

/-- A call on the session map; what it enqueues goes to the writer. -/
def onSessions (s : Broker) (m : SessionMap) : Broker :=
  { s with
    sessions := { m with queue := [] }
    queue := s.queue ++ m.queue.map .session }

/-- One effect of an outcome. -/
def perform (s : Broker) (order : List Sid) : WorkerAction → Broker
  | .setCustodyStatus custody status =>
    s.onSessions (s.sessions.setCustodyStatus order custody status).1
  | .persistFailure custody status now =>
    match s.worker.scheduler.entries custody with
    | none => s
    | some state => s.sendCustody (.failure custody status state.failCount state.nextRefresh now)
  | .tombstoneByCustody custody now =>
    s.onSessions (s.sessions.tombstoneByCustody order custody now).1

/-- The writer's turn on a batch. -/
def commitBatch (s : Broker) (batch : Batch) (rest : List Command) : Broker :=
  let o := applyBatch ring s.db batch
  { s with
    queue := rest
    db := o.committed.getD s.db
    applied := if o.committed.isSome then s.applied ++ batch.commands.map (·.1) else s.applied
    durable := if o.committed.isSome then s.durable ++ o.acks else s.durable }

/-- One step; a step that cannot be taken leaves the broker alone. -/
def step (s : Broker) : BrokerOp → Broker
  | .takeCustody row =>
    if s.login row.custodyId = none then
      { s.sendCustody (.insert row) with
        login := Function.update s.login row.custodyId (some (.written s.nextAck)) }
    else s
  | .schedule custody issuedAt lifetimeSecs =>
    match s.login custody with
    | some (.written ack) =>
      if ack ∈ s.durable then
        { s with
          requests := s.requests ++ [⟨custody, issuedAt, lifetimeSecs⟩]
          login := Function.update s.login custody (some .scheduled) }
      else s
    | _ => s
  | .create sid custody sub token now =>
    if s.login custody = some .scheduled then
      { s.onSessions (s.sessions.create sid custody sub token now).1 with
        login := Function.update s.login custody (some .created) }
    else s
  | .accept draw =>
    if s.worker.Idle then
      match s.requests with
      | [] => s
      | r :: requests =>
        { s with
          requests
          worker := { s.worker with
            scheduler := s.worker.scheduler.insert r.custody r.issuedAt r.lifetimeSecs draw } }
    else s
  | .tick now => if s.worker.Idle then { s with worker := s.worker.tick now } else s
  | .dispatch =>
    if s.worker.inflight = [] ∧ s.worker.todo = [] then { s with worker := s.worker.dispatch } else s
  | .renew custody refreshTok accessTok accessExp nextRefresh now =>
    if custody ∈ s.worker.inflight then
      s.sendCustody (.success custody refreshTok accessTok accessExp nextRefresh now)
    else s
  | .join custody outcome now draw =>
    if custody ∈ s.worker.inflight ∧ s.worker.todo = [] then
      { s with worker := s.worker.join custody outcome now draw }
    else s
  | .act order =>
    match s.worker.todo with
    | [] => s
    | action :: todo => { s with worker := { s.worker with todo } }.perform order action
  | .commit count beginFails commitFails =>
    s.commitBatch ring ⟨(s.queue.take count).map (·, false), beginFails, commitFails⟩
      (s.queue.drop count)

/-! ### What an effect leaves -/

@[simp] theorem perform_worker (s : Broker) (order : List Sid) (action : WorkerAction) :
    (s.perform order action).worker = s.worker := by
  cases action with
  | persistFailure custody status now =>
    simp only [perform]
    split <;> rfl
  | _ => rfl

theorem perform_persistFailure (s : Broker) (order : List Sid) (custody : CustodyId)
    (status : CustodyStatus) (now : Timestamp) :
    (s.perform order (.persistFailure custody status now)).sessions = s.sessions := by
  simp only [perform]
  split <;> rfl

end Broker

end SessionBroker
