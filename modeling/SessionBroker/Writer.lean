/-
  The writer thread (`store/writer.rs`): its commands, one batch in one
  transaction, and the loop that drains the queue.

  * When commands arrive decides where a batch ends, so the loop takes the
    queue already cut into batches;
  * a `Batch` says what goes wrong besides what the statements refuse (a full
    disk, a locked file): at `BEGIN`, at any command, at `COMMIT`;
  * an acknowledgement channel is a number, a reply what the thread sends on
    it.  A channel the thread drops reads as an error on the other end.
-/
import SessionBroker.Admin

namespace SessionBroker

/-! ## Commands -/

/-- Custody mutations, the write-through half of the split. -/
inductive CustodyWrite where
  | insert (row : FullCustodyRow)
  | success (custodyId : CustodyId) (refreshTok accessTok : Bytes)
      (accessExp nextRefresh now : Timestamp)
  | failure (custodyId : CustodyId) (status : CustodyStatus) (failCount : ℤ)
      (nextRefresh now : Timestamp)
deriving DecidableEq, Repr

/-- `Command`; `session` holds the six constructors the session map emits. -/
inductive Command where
  | session (cmd : SessionCommand)
  | insertTxn (row : TxnRow)
  | deleteExpiredTxns (before : Timestamp)
  | custody (write : CustodyWrite) (ack : ℕ)
  | admin (write : AdminWrite) (audit : Option AuditRow) (ack : ℕ)
  | audit (row : AuditRow)
  | pruneAudit (before : Timestamp)
  | reap (deadBefore txnBefore : Timestamp)
  | reseal
  | ping
  | shutdown
deriving DecidableEq, Repr

/-- The custody arm of `apply_batch`. -/
def Db.applyCustody (ring : KeyRing) (db : Db) : CustodyWrite → Option Db
  | .insert row => db.insertCustody ring row
  | .success custodyId refreshTok accessTok accessExp nextRefresh now =>
    db.updateCustodySuccess ring custodyId refreshTok accessTok accessExp nextRefresh now
  | .failure custodyId status failCount nextRefresh now =>
    db.updateCustodyFailure custodyId status failCount nextRefresh now

/-- The audit row of an admin write, with the write's result. -/
def AuditRow.withOutcome (row : AuditRow) (write : AdminWrite) (applied : Bool) : AuditRow :=
  if applied then row else { row with outcome := "failure", reason := some write.unappliedReason }

/-- The admin arm of `apply_batch`: the mutation, then its audit row. -/
def Db.applyAudited (ring : KeyRing) (db : Db) (write : AdminWrite) (audit : Option AuditRow) :
    Option (Db × Bool) :=
  (db.applyAdmin ring write).map fun r =>
    (match audit with
      | none => r.1
      | some row => r.1.insertAudit (row.withOutcome write r.2), r.2)

/-! ## Batches -/

/-- What one arm of the loop in `apply_batch` does to the database. -/
def Db.apply (ring : KeyRing) (db : Db) : Command → Option Db
  | .session cmd => db.applySession cmd
  | .insertTxn row => db.insertTxn row
  | .deleteExpiredTxns before => db.deleteExpiredTxns before
  | .custody write _ => db.applyCustody ring write
  | .admin write audit _ => (db.applyAudited ring write audit).map (·.1)
  | .audit row => db.insertAudit row
  | .pruneAudit before => (db.pruneAudit before).1
  | .reap deadBefore txnBefore => (db.reap deadBefore txnBefore).1
  | .reseal => (db.resealAll ring).1
  | .ping => db
  | .shutdown => db

/-- The commands that run no statement. -/
def Command.silent : Command → Bool
  | ping | shutdown => true
  | _ => false

/-- One arm of the loop, where `fault` says that the environment fails its
    statement. -/
def Db.attempt (ring : KeyRing) (db : Db) (cmd : Command × Bool) : Option Db :=
  if cmd.2 && !cmd.1.silent then none else db.apply ring cmd.1

structure Batch where
  commands : List (Command × Bool)
  beginFails : Bool := false
  commitFails : Bool := false
deriving DecidableEq, Repr

/-- A batch with which nothing goes wrong but what the statements refuse. -/
def Batch.ofCommands (cmds : List Command) : Batch := ⟨cmds.map (·, false), false, false⟩

/-- The locals of the loop in `apply_batch`. -/
structure BatchState where
  db : Db
  acks : List ℕ
  adminAcks : List (ℕ × Bool)
  shutdown : Bool
deriving DecidableEq, Repr

/-- What one arm notes for after the transaction, `s.db` being the database it
    found. -/
def BatchState.note (ring : KeyRing) (s : BatchState) : Command → BatchState
  | .custody _ ack => { s with acks := s.acks ++ [ack] }
  | .admin write audit ack =>
    { s with adminAcks := s.adminAcks ++
        ((s.db.applyAudited ring write audit).map fun r => (ack, r.2)).toList }
  | .shutdown => { s with shutdown := true }
  | _ => s

/-- One arm of the loop in `apply_batch`; `none` is the `?`. -/
def BatchState.step (ring : KeyRing) (s : BatchState) (cmd : Command × Bool) : Option BatchState :=
  (s.db.attempt ring cmd).map fun db => { s.note ring cmd.1 with db }

/-- The loop of `apply_batch`: its locals where it stopped, and whether it got
    to the end. -/
def batchLoop (ring : KeyRing) : BatchState → List (Command × Bool) → BatchState × Bool
  | s, [] => (s, true)
  | s, cmd :: cmds =>
    match s.step ring cmd with
    | none => (s, false)
    | some s' => batchLoop ring s' cmds

/-- `BatchOutcome`: `committed` is the database the transaction left, `none` if
    it was rolled back. -/
structure BatchOutcome where
  committed : Option Db
  acks : List ℕ
  adminAcks : List (ℕ × Bool)
  shutdown : Bool
deriving DecidableEq, Repr

/-- `apply_batch`. -/
def applyBatch (ring : KeyRing) (db : Db) (batch : Batch) : BatchOutcome :=
  if batch.beginFails then ⟨none, [], [], false⟩
  else
    let r := batchLoop ring ⟨db, [], [], false⟩ batch.commands
    ⟨if r.2 && !batch.commitFails then some r.1.db else none, r.1.acks, r.1.adminAcks,
      r.1.shutdown⟩

/-- What the thread sends on an acknowledgement channel: `none` is an error. -/
inductive AckReply where
  | custody (durable : Bool)
  | admin (applied : Option Bool)
deriving DecidableEq, Repr

/-- The replies of `run` to a batch. -/
def BatchOutcome.replies (o : BatchOutcome) : List (ℕ × AckReply) :=
  o.acks.map (fun ack => (ack, .custody o.committed.isSome)) ++
    o.adminAcks.map fun p => (p.1, .admin (o.committed.map fun _ => p.2))

/-! ## The thread -/

/-- The thread: the database, the replies sent, and whether `run` has
    returned. -/
structure WriterThread where
  db : Db
  replies : List (ℕ × AckReply)
  returned : Bool
deriving DecidableEq, Repr

/-- One turn of the loop in `run`. -/
def WriterThread.turn (ring : KeyRing) (w : WriterThread) (batch : Batch) : WriterThread :=
  if w.returned then w
  else
    let o := applyBatch ring w.db batch
    ⟨o.committed.getD w.db, w.replies ++ o.replies, o.shutdown⟩

/-- `run`, on a queue cut into batches. -/
def WriterThread.run (ring : KeyRing) (db : Db) (batches : List Batch) : WriterThread :=
  batches.foldl (turn ring) ⟨db, [], false⟩

end SessionBroker
