/-
  The durable side (`store/repo.rs`): the custody, session and generation
  tables as lists of rows, the statements that change the last two, and the
  boot-time load.

  * A statement returns `none` where SQLite refuses it: a duplicate primary key
    or a missing foreign-key target;
  * `applyAll` is the writer applying commands in queue order, `applyBatch` one
    of its transactions;
  * `rehydrate` is the join of the boot query, grouped by session, and
    `rehydrateSessions` (`main.rs`) feeds it to a map.
-/
import SessionBroker.Map

namespace SessionBroker

/-! ## Rows -/

/-- The columns of a custody row that session statements read. -/
structure CustodyRow where
  custodyId : CustodyId
  providerId : String
deriving DecidableEq, Repr

/-- A row of the `session` table: the inserted row, and the two columns
    `insert_session` fills itself. -/
structure SessionRecord where
  row : SessionRow
  tombstonedAt : Option Timestamp
  providerId : String
deriving DecidableEq, Repr

/-- `GenerationRow`, a row of the `generation` table. -/
structure GenerationRow where
  tokenHash : TokenHash
  sid : Sid
  genNo : ℕ
  createdAt : Timestamp
  activeUntil : Timestamp
  supersededAt : Option Timestamp
deriving DecidableEq, Repr

/-- The tables, rows in insertion order. -/
structure Tables where
  custody : List CustodyRow
  session : List SessionRecord
  generation : List GenerationRow
deriving DecidableEq, Repr

/-- A session row with its generations, as `rehydrate` returns it. -/
structure RehydratedSession where
  session : SessionRow
  generations : List GenerationRow
deriving DecidableEq, Repr

/-- What `rehydrate_sessions` makes of a generation row. -/
def GenerationRow.toGeneration (r : GenerationRow) : Generation :=
  ⟨r.genNo, r.tokenHash, r.createdAt, r.activeUntil, r.supersededAt⟩

namespace Tables

/-! ## Statements -/

/-- `insert_session`: `sid` is the primary key, `custody_id` a foreign key. -/
def insertSession (t : Tables) (row : SessionRow) : Option Tables :=
  if t.session.any fun s => s.row.sid = row.sid then none
  else (t.custody.find? fun c => c.custodyId = row.custodyId).map fun c =>
    { t with session := t.session ++ [⟨row, none, c.providerId⟩] }

/-- `update_session_progress`. -/
def updateSessionProgress (t : Tables) (sid : Sid) (currentGen : ℕ) (idleExp : Timestamp) :
    Tables :=
  { t with session := t.session.map fun s =>
      if s.row.sid = sid then { s with row := { s.row with currentGen, idleExp } } else s }

/-- `tombstone_session`: `COALESCE` keeps the first death. -/
def tombstoneSession (t : Tables) (sid : Sid) (now : Timestamp) : Tables :=
  { t with session := t.session.map fun s =>
      if s.row.sid = sid then
        { s with
          row := { s.row with status := .tombstoned }
          tombstonedAt := s.tombstonedAt.or (some now) }
      else s }

/-- `insert_generation`: `token_hash` is the primary key, `sid` a foreign key. -/
def insertGeneration (t : Tables) (sid : Sid) (genNo : ℕ) (hash : TokenHash)
    (createdAt activeUntil : Timestamp) : Option Tables :=
  if t.generation.any fun g => g.tokenHash = hash then none
  else if t.session.any fun s => s.row.sid = sid then
    some { t with generation := t.generation ++ [⟨hash, sid, genNo, createdAt, activeUntil, none⟩] }
  else none

/-- `update_generation_superseded`. -/
def updateGenerationSuperseded (t : Tables) (hash : TokenHash) (supersededAt : Timestamp) :
    Tables :=
  { t with generation := t.generation.map fun g =>
      if g.tokenHash = hash then { g with supersededAt := some supersededAt } else g }

/-- `delete_generation`. -/
def deleteGeneration (t : Tables) (hash : TokenHash) : Tables :=
  { t with generation := t.generation.filter fun g => g.tokenHash ≠ hash }

/-- The arm of `apply_batch` for one command. -/
def applyCommand (t : Tables) : SessionCommand → Option Tables
  | .insertSession row => t.insertSession row
  | .updateSessionProgress sid currentGen idleExp => t.updateSessionProgress sid currentGen idleExp
  | .tombstoneSession sid now => t.tombstoneSession sid now
  | .insertGeneration sid genNo hash createdAt activeUntil =>
    t.insertGeneration sid genNo hash createdAt activeUntil
  | .supersedeGeneration hash supersededAt => t.updateGenerationSuperseded hash supersededAt
  | .deleteGeneration hash => t.deleteGeneration hash

/-- The commands applied in queue order, `none` if one of them fails. -/
def applyAll (t : Tables) (cmds : List SessionCommand) : Option Tables :=
  cmds.foldlM applyCommand t

/-- The session commands of one `apply_batch`: one transaction, all or nothing. -/
def applyBatch (t : Tables) (batch : List SessionCommand) : Tables := (t.applyAll batch).getD t

/-! ## Rehydration -/

/-- The rows of the boot query: alive sessions joined with their generations,
    `ORDER BY s.sid, g.gen_no`. -/
def bootRows (t : Tables) : List (SessionRow × GenerationRow) :=
  let sessions := (t.session.map (·.row)).insertionSort fun s s' => s.sid.id ≤ s'.sid.id
  let generations := t.generation.insertionSort fun g g' => g.genNo ≤ g'.genNo
  (sessions.filter fun s => s.status = .alive).flatMap fun s =>
    (generations.filter fun g => g.sid = s.sid).map fun g => (s, g)

/-- The loop of `rehydrate`: a row of the session last pushed joins it, any
    other row starts a new one. -/
def groupRows : List RehydratedSession → List (SessionRow × GenerationRow) →
    List RehydratedSession
  | out, [] => out
  | out, (s, g) :: rows =>
    match out.getLast? with
    | some last =>
      if last.session.sid = s.sid then
        groupRows (out.dropLast ++ [{ last with generations := last.generations ++ [g] }]) rows
      else groupRows (out ++ [⟨s, [g]⟩]) rows
    | none => groupRows [⟨s, [g]⟩] rows

/-- `rehydrate`: every alive session with the generations still attached to it. -/
def rehydrate (t : Tables) : List RehydratedSession := groupRows [] t.bootRows

end Tables

/-- What `rehydrate_sessions` hands to the map for one stored session. -/
def RehydratedSession.restored (r : RehydratedSession) : RestoredSession where
  sid := r.session.sid
  custody := r.session.custodyId
  sub := r.session.sub
  currentGen := r.session.currentGen
  idleExp := r.session.idleExp
  absoluteExp := r.session.absoluteExp
  gens := r.generations.map (·.toGeneration)

/-- `rehydrate_sessions` (`main.rs`): the map, and how many were restored. -/
def rehydrateSessions (t : Tables) (m : SessionMap) : SessionMap × ℕ :=
  t.rehydrate.foldl (fun r entry =>
    let restored := r.1.rehydrateSession entry.restored
    (restored.1, if restored.2 then r.2 + 1 else r.2)) (m, 0)

/-- A restart: a fresh map under the same policy, rebuilt from the tables. -/
def restart (policy : SessionPolicy) (t : Tables) : SessionMap :=
  (rehydrateSessions t (.withDurability policy)).1

end SessionBroker
