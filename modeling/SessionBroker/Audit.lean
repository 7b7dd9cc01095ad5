/-
  `AuditSink` (`audit.rs`): tier B of the audit record, from `record` to the
  table.

  * `record` is cut at each atomic access and each send, so that calls of many
    tasks interleave with each other and with the writer;
  * the writer takes any prefix of the queue as a batch.  Nobody sends
    `Shutdown` here, and no retention prune runs;
  * `given` and `landed` are what an observer keeps: the events given to
    `record`, and the rows that `Audit` commands have put into the table.
-/
import SessionBroker.Batches
import SessionBroker.Lib.Ledger

namespace SessionBroker

/-! ## Rows -/

/-- `action::AUDIT_GAP`. -/
def auditGap : String := "audit.gap"

def AuditRow.isGap (row : AuditRow) : Bool := row.action = auditGap

/-- An `Event` for `record`.  Only the sink itself makes gap rows. -/
abbrev Event := {row : AuditRow // row.isGap = false}

structure AuditConfig where
  queueCapacity : ℕ
  /-- `SubjectMode::Hashed`, with the function `pseudonym`. -/
  hashed : Option (String → String)

/-- `pseudonymise`. -/
def AuditConfig.pseudonymise (config : AuditConfig) (row : AuditRow) : AuditRow :=
  match config.hashed with
  | none => row
  | some pseudonym => { row with
      subject := row.subject.map pseudonym
      actorId := if row.actorKind = "user" then row.actorId.map pseudonym else row.actorId }

/-- The gap row of `record`. -/
def gapRow (at_ : Timestamp) (dropped : ℕ) : AuditRow where
  at_ := at_
  action := auditGap
  outcome := "failure"
  actorKind := "system"
  actorId := none
  subject := none
  sid := none
  custodyId := none
  keyId := none
  reason := some "queue_full"
  clientIpPrefix := none
  detail := some [("dropped", .num dropped)]

/-- The count in a gap row. -/
def AuditRow.dropped (row : AuditRow) : ℕ :=
  match row.detail with
  | some [("dropped", .num n)] => n.toNat
  | _ => 0

/-! ## `record` -/

/-- What is left to do in a `record` call. -/
inductive RecordStep where
  /-- the load of `depth` and the test against the capacity -/
  | check
  /-- `pending_gap.fetch_add(1)` -/
  | drop
  /-- `pending_gap.swap(0)` -/
  | swap
  /-- the `depth.fetch_add(1)` of `enqueue` -/
  | count
  /-- the send of `enqueue` -/
  | send (row : AuditRow)
deriving DecidableEq, Repr

/-- A `record` call under way, with its row. -/
structure Recording where
  row : AuditRow
  todo : List RecordStep
deriving DecidableEq, Repr

/-- The two steps of `enqueue`. -/
def enqueueSteps (row : AuditRow) : List RecordStep := [.count, .send row]

/-- The sink, the calls under way, the queue and the store. -/
structure Trail where
  depth : ℤ
  pendingGap : ℕ
  calls : List Recording
  queue : List Command
  db : Db
  given : List AuditRow
  landed : List AuditRow
deriving DecidableEq, Repr

/-- `AuditSink::new`, on a store and an empty queue. -/
def Trail.new (db : Db) : Trail := ⟨0, 0, [], [], db, [], []⟩

/-- What a step of a call does, and what it adds to what is left to do. -/
def Trail.recordStep (config : AuditConfig) (t : Trail) (row : AuditRow) :
    RecordStep → Trail × List RecordStep
  | .check => (t, if asI64 config.queueCapacity ≤ t.depth then [.drop] else [.swap])
  | .drop => ({ t with pendingGap := (t.pendingGap + 1) % 2 ^ 64 }, [])
  | .swap =>
    ({ t with pendingGap := 0 },
      (if 0 < t.pendingGap then enqueueSteps (gapRow row.at_ t.pendingGap) else []) ++
        enqueueSteps row)
  | .count => ({ t with depth := t.depth + 1 }, [])
  | .send row => ({ t with queue := t.queue ++ [.audit row] }, [])

/-! ## The system -/

/-- The commands of everyone but the sink: no `Audit`, and here neither a prune
    nor a `Shutdown`. -/
def Command.isOther : Command → Bool
  | audit _ | pruneAudit _ | shutdown => false
  | _ => true

/-- The rows of the `Audit` commands. -/
def auditRows (cmds : List Command) : List AuditRow :=
  cmds.filterMap fun
    | .audit row => some row
    | _ => none

inductive TrailStep where
  /-- `record` is called. -/
  | record (event : Event)
  /-- The `i`-th call goes on. -/
  | advance (i : ℕ)
  /-- Somebody else sends a command. -/
  | other (cmd : {cmd : Command // cmd.isOther})
  /-- The writer takes the first `n` commands; `faults i` fails the `i`-th. -/
  | write (n : ℕ) (faults : ℕ → Bool) (beginFails commitFails : Bool)

/-- The batch of a `write`. -/
def Trail.batch (t : Trail) (n : ℕ) (faults : ℕ → Bool) (beginFails commitFails : Bool) : Batch :=
  ⟨(t.queue.take n).mapIdx fun i cmd => (cmd, faults i), beginFails, commitFails⟩

def Trail.step (config : AuditConfig) (ring : KeyRing) (t : Trail) : TrailStep → Trail
  | .record event =>
    let row := config.pseudonymise event.1
    { t with calls := t.calls ++ [⟨row, [.check]⟩], given := t.given ++ [row] }
  | .advance i =>
    match t.calls[i]? with
    | some ⟨row, now :: rest⟩ =>
      let r := t.recordStep config row now
      { r.1 with calls := t.calls.set i ⟨row, r.2 ++ rest⟩ }
    | _ => t
  | .other cmd => { t with queue := t.queue ++ [cmd.1] }
  | .write n faults beginFails commitFails =>
    let rows := auditRows (t.queue.take n)
    let o := applyBatch ring t.db (t.batch n faults beginFails commitFails)
    { t with
      depth := t.depth - rows.length
      queue := t.queue.drop n
      db := o.committed.getD t.db
      landed := t.landed ++ if o.committed.isSome then rows else [] }

/-- The step does not lose an event: a batch with an `Audit` command commits,
    and the counter does not wrap. -/
def Trail.Keeps (ring : KeyRing) (t : Trail) : TrailStep → Prop
  | .write n faults beginFails commitFails => auditRows (t.queue.take n) ≠ [] →
    beginFails = false ∧ commitFails = false ∧ (Transaction.applyAll (Db.attempt ring) t.db
      (t.batch n faults beginFails commitFails).commands).isSome
  | .advance i => (t.calls[i]?.bind (·.todo.head?)) = some .drop → t.pendingGap + 1 < 2 ^ 64
  | _ => True

instance {ring : KeyRing} {t : Trail} {a : TrailStep} : Decidable (t.Keeps ring a) :=
  match a with
  | .write .. | .advance _ => inferInstanceAs (Decidable (_ → _))
  | .record _ | .other _ => .isTrue trivial

/-- No `record` call is in progress. -/
def Trail.Quiet (t : Trail) : Prop := ∀ call ∈ t.calls, call.todo = []

instance {t : Trail} : Decidable t.Quiet := inferInstanceAs (Decidable (∀ call ∈ t.calls, _))

/-- **The record is not silently short**: the events given are in the table, in
    the queue, or counted. -/
def Trail.Complete (t : Trail) : Prop :=
  t.landed.Sublist (t.db.audit.map (·.row)) ∧
  t.given.length =
    (t.landed.filter (!·.isGap)).length +
    ((auditRows t.queue).filter (!·.isGap)).length +
    (((t.landed ++ auditRows t.queue).filter (·.isGap)).map AuditRow.dropped).sum +
    t.pendingGap

instance {t : Trail} : Decidable t.Complete := inferInstanceAs (Decidable (_ ∧ _))

/-! ## Counting -/

/-- The events a row stands for. -/
def AuditRow.weight (row : AuditRow) : ℕ := if row.isGap then row.dropped else 1

def weights (rows : List AuditRow) : ℕ := (rows.map AuditRow.weight).sum

@[simp] theorem weights_nil : weights [] = 0 := rfl

@[simp] theorem weights_append (rows rows' : List AuditRow) :
    weights (rows ++ rows') = weights rows + weights rows' := by
  simp [weights]

@[simp] theorem weights_singleton (row : AuditRow) : weights [row] = row.weight := by
  simp [weights]

/-- The events among the rows, and the counts of the gap rows. -/
theorem weights_eq (rows : List AuditRow) : weights rows =
    (rows.filter (!·.isGap)).length + ((rows.filter (·.isGap)).map AuditRow.dropped).sum := by
  induction rows with
  | nil => rfl
  | cons row rows ih =>
    have hcons : weights (row :: rows) = row.weight + weights rows := rfl
    rw [hcons, ih]
    cases h : row.isGap
    · simp [h, AuditRow.weight]
      omega
    · simp [h, AuditRow.weight]
      omega

theorem weights_eq_zero {rows : List AuditRow} (h : ∀ row ∈ rows, 0 < row.weight) :
    weights rows = 0 ↔ rows = [] := by
  cases rows with
  | nil => simp
  | cons row rows =>
    have hrow := h row (List.mem_cons_self ..)
    have hcons : weights (row :: rows) = row.weight + weights rows := rfl
    simp only [hcons, reduceCtorEq, iff_false]
    omega

@[simp] theorem gapRow_weight (at_ : Timestamp) (dropped : ℕ) :
    (gapRow at_ dropped).weight = dropped := by
  simp [AuditRow.weight, AuditRow.isGap, AuditRow.dropped, gapRow]

theorem weight_of_event {row : AuditRow} (h : row.isGap = false) : row.weight = 1 := by
  simp [AuditRow.weight, h]

@[simp] theorem pseudonymise_isGap (config : AuditConfig) (row : AuditRow) :
    (config.pseudonymise row).isGap = row.isGap := by
  unfold AuditConfig.pseudonymise
  split <;> rfl

@[simp] theorem auditRows_append (cmds cmds' : List Command) :
    auditRows (cmds ++ cmds') = auditRows cmds ++ auditRows cmds' :=
  List.filterMap_append

theorem auditRows_other {cmd : Command} (h : cmd.isOther) : auditRows [cmd] = [] := by
  cases cmd <;> simp_all [auditRows, Command.isOther]

theorem mem_auditRows {cmds : List Command} {row : AuditRow} :
    row ∈ auditRows cmds ↔ .audit row ∈ cmds := by
  rw [auditRows, List.mem_filterMap]
  constructor
  · rintro ⟨cmd, hc, he⟩
    cases cmd <;> cases he
    exact hc
  · exact fun h => ⟨_, h, rfl⟩

/-- The events a step of a call still has to put somewhere. -/
def RecordStep.owed : RecordStep → ℕ
  | check | drop | swap => 1
  | count => 0
  | send row => row.weight

def Recording.owed (call : Recording) : ℕ := (call.todo.map RecordStep.owed).sum

/-- Where the events given are. -/
def Trail.held (t : Trail) : ℕ :=
  weights t.landed + weights (auditRows t.queue) + t.pendingGap + (t.calls.map Recording.owed).sum

/-- What a step loses for good: a batch that is rolled back with the rows in it,
    or a counter that wraps. -/
def Trail.lost (ring : KeyRing) (t : Trail) : TrailStep → ℕ
  | .write n faults beginFails commitFails =>
    if (applyBatch ring t.db (t.batch n faults beginFails commitFails)).committed.isSome then 0
    else weights (auditRows (t.queue.take n))
  | .advance i =>
    match t.calls[i]? with
    | some ⟨_, .drop :: _⟩ => if t.pendingGap + 1 = 2 ^ 64 then 2 ^ 64 else 0
    | _ => 0
  | _ => 0

/-! ## The table -/

section
variable {ring : KeyRing} {db db' : Db}

/-- A command adds its row, and prunes aside none takes any. -/
theorem apply_audit {cmd : Command} (hp : ∀ before, cmd ≠ .pruneAudit before)
    (h : db.apply ring cmd = some db') : ∃ rows,
      db'.audit.map (·.row) = db.audit.map (·.row) ++ rows ∧ (auditRows [cmd]).Sublist rows := by
  cases cmd with
  | audit row =>
    cases h
    exact ⟨[row], by simp [Db.insertAudit], List.Sublist.refl _⟩
  | pruneAudit before => exact absurd rfl (hp before)
  | session cmd =>
    obtain ⟨_, -, rfl⟩ := Option.map_eq_some_iff.1 h
    exact ⟨[], (List.append_nil _).symm, List.Sublist.refl _⟩
  | insertTxn row =>
    obtain ⟨_, -, rfl⟩ := Option.map_eq_some_iff.1 h
    exact ⟨[], (List.append_nil _).symm, List.Sublist.refl _⟩
  | custody write ack =>
    refine ⟨[], ?_, List.Sublist.refl _⟩
    rw [List.append_nil]
    cases write with
    | insert row =>
      obtain ⟨_, -, rfl⟩ := Option.map_eq_some_iff.1 h
      rfl
    | success => cases h; rfl
    | failure => cases h; rfl
  | admin write audit ack =>
    obtain ⟨r, hr, rfl⟩ := Option.map_eq_some_iff.1 h
    obtain ⟨⟨made, applied⟩, hm, rfl⟩ := Option.map_eq_some_iff.1 hr
    obtain ⟨-, -, -, ha⟩ := Db.applyAdmin_sameCore hm
    cases audit with
    | none => exact ⟨[], by simp [ha], List.Sublist.refl _⟩
    | some row =>
      exact ⟨[row.withOutcome write applied], by simp [Db.insertAudit, ha],
        List.nil_sublist _⟩
  | _ =>
    cases h
    exact ⟨[], (List.append_nil _).symm, List.Sublist.refl _⟩

theorem applyAll_audit {cmds : List (Command × Bool)} {rows : List AuditRow}
    (hp : ∀ cmd ∈ cmds, ∀ before, cmd.1 ≠ .pruneAudit before)
    (hr : rows.Sublist (db.audit.map (·.row)))
    (h : Transaction.applyAll (Db.attempt ring) db cmds = some db') :
    (rows ++ auditRows (cmds.map (·.1))).Sublist (db'.audit.map (·.row)) := by
  induction cmds generalizing db rows with
  | nil =>
    cases h
    simpa [auditRows] using hr
  | cons cmd cmds ih =>
    rw [Transaction.applyAll_cons, Option.bind_eq_some_iff] at h
    obtain ⟨db₁, ha, h⟩ := h
    unfold Db.attempt at ha
    split_ifs at ha
    obtain ⟨new, hnew, hsub⟩ := apply_audit (hp cmd (List.mem_cons_self ..)) ha
    have hstep : (rows ++ auditRows [cmd.1]).Sublist (db₁.audit.map (·.row)) := by
      rw [hnew]
      exact hr.append hsub
    have := ih (fun cmd' hc => hp cmd' (List.mem_cons_of_mem _ hc)) hstep h
    rwa [List.append_assoc, ← auditRows_append] at this

end

/-! ## The invariant -/

namespace Trail

/-- * What is under way is an event, or a gap with a count;
    * the same of what is queued, and no prune is;
    * the counter is a `u64`, and what landed is in the table. -/
structure Sound (t : Trail) : Prop where
  event : ∀ call ∈ t.calls, call.row.isGap = false
  sent : ∀ call ∈ t.calls, ∀ row, .send row ∈ call.todo → 0 < row.weight
  queued : ∀ row, .audit row ∈ t.queue → 0 < row.weight
  noPrune : ∀ before, .pruneAudit before ∉ t.queue
  counter : t.pendingGap < 2 ^ 64
  landed : t.landed.Sublist (t.db.audit.map (·.row))

variable {config : AuditConfig} {ring : KeyRing} {t : Trail}

theorem batch_commands (t : Trail) (n : ℕ) (faults : ℕ → Bool) (beginFails commitFails : Bool) :
    (t.batch n faults beginFails commitFails).commands.map (·.1) = t.queue.take n := by
  ext i : 1
  simp [batch, Option.map_map, Function.comp_def]

theorem sound_new (db : Db) : (new db).Sound where
  event := by simp [new]
  sent := by simp [new]
  queued := by simp [new]
  noPrune := by simp [new]
  counter := by simp [new]
  landed := List.nil_sublist _

variable (config) in
/-- One step of a call. -/
theorem Sound.recordStep (h : t.Sound) {row : AuditRow} (hrow : row.isGap = false)
    {now : RecordStep} (hnow : ∀ row, now = .send row → 0 < row.weight) :
    let r := t.recordStep config row now
    (∀ row, .send row ∈ r.2 → 0 < row.weight) ∧
    (∀ row, .audit row ∈ r.1.queue → 0 < row.weight) ∧
    (∀ before, .pruneAudit before ∉ r.1.queue) ∧ r.1.pendingGap < 2 ^ 64 := by
  have hweight := weight_of_event hrow
  cases now with
  | check =>
    refine ⟨?_, h.queued, h.noPrune, h.counter⟩
    simp only [Trail.recordStep]
    split_ifs <;> simp
  | drop => exact ⟨by simp [Trail.recordStep], h.queued, h.noPrune, Nat.mod_lt _ (Nat.two_pow_pos 64)⟩
  | swap =>
    refine ⟨?_, h.queued, h.noPrune, by simp [Trail.recordStep]⟩
    intro row' hm
    simp only [Trail.recordStep, enqueueSteps] at hm
    split_ifs at hm with hgap
    · have : row' = gapRow row.at_ t.pendingGap ∨ row' = row := by simpa using hm
      rcases this with rfl | rfl
      · rwa [gapRow_weight]
      · omega
    · have : row' = row := by simpa using hm
      rw [this]
      omega
  | count => exact ⟨by simp [Trail.recordStep], h.queued, h.noPrune, h.counter⟩
  | send row' =>
    refine ⟨by simp [Trail.recordStep], ?_, ?_, h.counter⟩
    · intro row'' hm
      rcases List.mem_append.1 hm with hm | hm
      · exact h.queued _ hm
      · cases List.mem_singleton.1 hm
        exact hnow _ rfl
    · intro before hm
      rcases List.mem_append.1 hm with hm | hm
      · exact h.noPrune _ hm
      · cases List.mem_singleton.1 hm

theorem Sound.step (h : t.Sound) (a : TrailStep) : (t.step config ring a).Sound := by
  cases a with
  | record event =>
    refine { h with event := ?_, sent := ?_ }
    · intro call hc
      rcases List.mem_append.1 hc with hc | hc
      · exact h.event call hc
      · cases List.mem_singleton.1 hc
        rw [pseudonymise_isGap]
        exact event.2
    · intro call hc row hm
      rcases List.mem_append.1 hc with hc | hc
      · exact h.sent call hc row hm
      · cases List.mem_singleton.1 hc
        simp at hm
  | advance i =>
    unfold Trail.step
    dsimp only
    split
    · rename_i row now rest hi
      have hm : (⟨row, now :: rest⟩ : Recording) ∈ t.calls := List.mem_of_getElem? hi
      obtain ⟨hsent, hqueued, hprune, hcounter⟩ := h.recordStep config (h.event _ hm)
        fun row' he => h.sent _ hm row' (he ▸ List.mem_cons_self ..)
      refine ⟨?_, ?_, hqueued, hprune, hcounter, ?_⟩
      · intro call hc
        rcases List.mem_or_eq_of_mem_set hc with hc | rfl
        · exact h.event call hc
        · exact h.event ⟨row, now :: rest⟩ hm
      · intro call hc row' hs
        rcases List.mem_or_eq_of_mem_set hc with hc | rfl
        · exact h.sent call hc row' hs
        · rcases List.mem_append.1 hs with hs | hs
          · exact hsent row' hs
          · exact h.sent _ hm row' (List.mem_cons_of_mem _ hs)
      · cases now <;> exact h.landed
    · exact h
  | other cmd =>
    have hother := cmd.2
    refine { h with queued := ?_, noPrune := ?_ }
    · intro row hm
      rcases List.mem_append.1 hm with hm | hm
      · exact h.queued row hm
      · rw [← List.mem_singleton.1 hm] at hother
        cases hother
    · intro before hm
      rcases List.mem_append.1 hm with hm | hm
      · exact h.noPrune before hm
      · rw [← List.mem_singleton.1 hm] at hother
        cases hother
  | write n faults beginFails commitFails =>
    refine { h with queued := ?_, noPrune := ?_, landed := ?_ }
    · exact fun row hm => h.queued row (List.mem_of_mem_drop hm)
    · exact fun before hm => h.noPrune before (List.mem_of_mem_drop hm)
    · dsimp only [Trail.step]
      cases hc : (applyBatch ring t.db (t.batch n faults beginFails commitFails)).committed with
      | none => simpa using h.landed
      | some db =>
        have hcommit : (applyBatch ring t.db
            (t.batch n faults beginFails commitFails)).committed = _ := applyBatch_committed
        rw [hc] at hcommit
        split_ifs at hcommit
        have htake := t.batch_commands n faults beginFails commitFails
        rw [← htake]
        refine applyAll_audit ?_ h.landed hcommit.symm
        intro cmd hm before he
        have hq : cmd.1 ∈ t.queue.take n := by
          rw [← htake]
          exact List.mem_map_of_mem hm
        exact h.noPrune before (he ▸ List.mem_of_mem_take hq)

/-! ## The books -/

@[simp] theorem owed_enqueueSteps (row : AuditRow) :
    ((enqueueSteps row).map RecordStep.owed).sum = row.weight := by
  simp [enqueueSteps, RecordStep.owed]

variable (config) in
/-- One step of a call moves what it owes. -/
theorem recordStep_held {row : AuditRow} (hrow : row.isGap = false) (hc : t.pendingGap < 2 ^ 64)
    (now : RecordStep) :
    let r := t.recordStep config row now
    weights t.landed + weights (auditRows t.queue) + t.pendingGap + now.owed =
      weights r.1.landed + weights (auditRows r.1.queue) + r.1.pendingGap +
        (r.2.map RecordStep.owed).sum +
        (if now = .drop ∧ t.pendingGap + 1 = 2 ^ 64 then 2 ^ 64 else 0) := by
  have hweight := weight_of_event hrow
  cases now with
  | check =>
    simp only [Trail.recordStep, RecordStep.owed, reduceCtorEq, false_and, if_false]
    split_ifs <;> rfl
  | drop =>
    generalize hM : 2 ^ 64 = M at hc
    simp only [Trail.recordStep, RecordStep.owed, List.map_nil, List.sum_nil, true_and, hM]
    split_ifs with hwrap
    · rw [hwrap, Nat.mod_self]
      omega
    · rw [Nat.mod_eq_of_lt (by omega)]
      omega
  | swap =>
    simp only [Trail.recordStep, RecordStep.owed, List.map_append, List.sum_append,
      owed_enqueueSteps, hweight, reduceCtorEq, false_and, if_false]
    split_ifs with hgap
    · rw [owed_enqueueSteps, gapRow_weight]
      omega
    · rw [List.map_nil, List.sum_nil]
      omega
  | count => rfl
  | send row' =>
    have hrows : auditRows [.audit row'] = [row'] := rfl
    simp only [Trail.recordStep, RecordStep.owed, auditRows_append, hrows, weights_append,
      weights_singleton, List.map_nil, List.sum_nil, reduceCtorEq, false_and, if_false]
    omega

/-- The sum over the calls, where one of them goes on. -/
theorem sum_owed_set {calls : List Recording} {i : ℕ} {call : Recording} (call' : Recording)
    (h : calls[i]? = some call) :
    ((calls.set i call').map Recording.owed).sum + call.owed =
      (calls.map Recording.owed).sum + call'.owed := by
  induction calls generalizing i with
  | nil => cases h
  | cons c calls ih =>
    cases i with
    | zero =>
      cases h
      simp
      omega
    | succ i =>
      have := ih (i := i) h
      simp only [List.set_cons_succ, List.map_cons, List.sum_cons]
      omega

/-- **A step keeps the books**, up to what it loses. -/
theorem Sound.books (h : t.Sound) (a : TrailStep) :
    (t.step config ring a).given.length + t.held =
      t.given.length + (t.step config ring a).held + t.lost ring a := by
  cases a with
  | record event =>
    simp [Trail.step, held, lost, Recording.owed, RecordStep.owed]
    omega
  | advance i =>
    unfold Trail.step lost
    dsimp only
    cases hi : t.calls[i]? with
    | none => rfl
    | some call =>
      obtain ⟨row, todo⟩ := call
      cases todo with
      | nil => rfl
      | cons now rest =>
        have hm := List.mem_of_getElem? hi
        have hstep := recordStep_held config (h.event _ hm) h.counter now
        have hsum := sum_owed_set ⟨row, (t.recordStep config row now).2 ++ rest⟩ hi
        have hgiven : (t.recordStep config row now).1.given = t.given := by cases now <;> rfl
        simp only [Recording.owed, List.map_append, List.sum_append, List.map_cons,
          List.sum_cons] at hsum hstep
        have hlost : (match (some ⟨row, now :: rest⟩ : Option Recording) with
            | some ⟨_, .drop :: _⟩ => if t.pendingGap + 1 = 2 ^ 64 then 2 ^ 64 else 0
            | _ => 0) = if now = .drop ∧ t.pendingGap + 1 = 2 ^ 64 then 2 ^ 64 else 0 := by
          cases now <;> simp only [reduceCtorEq, false_and, if_false, true_and]
        simp only [hlost, hgiven, held]
        generalize (if now = .drop ∧ t.pendingGap + 1 = 2 ^ 64 then 2 ^ 64 else 0) = wrap at *
        omega
  | other cmd =>
    simp [Trail.step, held, lost, auditRows_other cmd.2]
  | write n faults beginFails commitFails =>
    have hrows : weights (auditRows t.queue) =
        weights (auditRows (t.queue.take n)) + weights (auditRows (t.queue.drop n)) := by
      rw [← weights_append, ← auditRows_append, List.take_append_drop]
    simp only [Trail.step, held, lost, hrows]
    split_ifs <;> simp only [weights_append, weights_nil] <;> omega

theorem Sound.lost_eq_zero (h : t.Sound) (a : TrailStep) : t.lost ring a = 0 ↔ t.Keeps ring a := by
  cases a with
  | record event => simp [lost, Keeps]
  | other cmd => simp [lost, Keeps]
  | advance i =>
    have hcounter := h.counter
    generalize hM : 2 ^ 64 = M at hcounter
    simp only [lost, Keeps, hM]
    cases hi : t.calls[i]? with
    | none => simp
    | some call =>
      obtain ⟨row, todo⟩ := call
      cases todo with
      | nil => simp
      | cons now rest =>
        cases now with
        | drop =>
          simp only [Option.bind_some, List.head?_cons, forall_const, ite_eq_right_iff]
          constructor
          · intro hz
            by_contra hlt
            have := hz (by omega)
            omega
          · intro hk he
            omega
        | _ => simp
  | write n faults beginFails commitFails =>
    have hzero : weights (auditRows (t.queue.take n)) = 0 ↔ auditRows (t.queue.take n) = [] :=
      weights_eq_zero fun row hm => h.queued row (List.mem_of_mem_take (mem_auditRows.1 hm))
    have hcommit : (applyBatch ring t.db (t.batch n faults beginFails commitFails)).committed = _ :=
      applyBatch_committed
    have hb : (t.batch n faults beginFails commitFails).beginFails = beginFails := rfl
    have hc : (t.batch n faults beginFails commitFails).commitFails = commitFails := rfl
    simp only [lost, Keeps, hcommit, hb, hc, ne_eq, ← hzero]
    cases beginFails <;> cases commitFails <;>
      simp [imp_iff_not_or, or_comm, Option.isSome_iff_ne_none]

theorem sum_owed_of_quiet (h : t.Quiet) : (t.calls.map Recording.owed).sum = 0 := by
  rw [List.sum_eq_zero_iff_forall_eq_nat]
  intro n hn
  obtain ⟨call, hc, rfl⟩ := List.mem_map.1 hn
  rw [Recording.owed, h call hc]
  rfl

/-- Once the calls are over, the record is complete iff the books are. -/
theorem Sound.complete_iff (h : t.Sound) (hq : t.Quiet) :
    t.Complete ↔ t.given.length = t.held := by
  rw [Complete, held, sum_owed_of_quiet hq, weights_eq, weights_eq, List.filter_append,
    List.map_append, List.sum_append]
  constructor
  · rintro ⟨-, hg⟩
    omega
  · intro hg
    exact ⟨h.landed, by omega⟩

open Runs Ledger

/-- **When the audit record is complete.**  Over any run of `record` calls,
    other commands and batches, whenever no call is in progress, the record
    accounts for every event given iff no step so far has lost one. -/
theorem record_complete_iff (config : AuditConfig) (ring : KeyRing) (db : Db) (steps : List TrailStep)
    (hq : (run (step config ring) (new db) steps).Quiet) :
    (run (step config ring) (new db) steps).Complete ↔
      ∀ before a after, steps = before ++ a :: after →
        (run (step config ring) (new db) before).Keeps ring a := by
  have hrun : ∀ as, (run (step config ring) (new db) as).Sound ∧
      (run (step config ring) (new db) as).given.length =
        (run (step config ring) (new db) as).held +
          losses (lost ring) (step config ring) (new db) as :=
    given_eq_held Sound (fun t => t.given.length) held (sound_new db) rfl
      (fun _ a h => h.step a) (fun _ a h => h.books a)
  obtain ⟨hsound, hbooks⟩ := hrun steps
  rw [hsound.complete_iff hq, hbooks, Nat.add_eq_left, losses_eq_zero]
  constructor
  · intro hl before a after he
    exact ((hrun before).1.lost_eq_zero a).1 (hl before a after he)
  · intro hk before a after he
    exact ((hrun before).1.lost_eq_zero a).2 (hk before a after he)

/-- The event of a login. -/
def login : Event :=
  ⟨⟨⟨5⟩, "session.created", "success", "user", some "u", some "u", none, none, none, none, none,
    none⟩, rfl⟩

/-- An event that shares its batch with a refused command is gone, and nothing
    says so. -/
theorem event_lost :
    let orphan := Command.session (.insertSession
      ⟨⟨"s"⟩, ⟨"c"⟩, "u", 1, ⟨100⟩, ⟨100⟩, .alive, ⟨0⟩, none⟩)
    let t := run (step ⟨8192, none⟩ ⟨1, [1]⟩) (new (.fresh ⟨0⟩))
      [.record login, .advance 0, .advance 0, .advance 0, .advance 0, .other ⟨orphan, rfl⟩,
        .write 2 (fun _ => false) false false]
    t.Quiet ∧ ¬ t.Complete ∧ t.given.length = 1 ∧ t.db.audit = [] ∧ t.queue = [] ∧
      t.pendingGap = 0 := by
  decide

/-- The same event in a batch of its own is in the table. -/
theorem record_complete_iff_login :
    (run (step ⟨8192, none⟩ ⟨1, [1]⟩) (new (.fresh ⟨0⟩))
      [.record login, .advance 0, .advance 0, .advance 0, .advance 0,
        .write 1 (fun _ => false) false false]).Complete := by
  refine (record_complete_iff ⟨8192, none⟩ ⟨1, [1]⟩ (.fresh ⟨0⟩) _ (by decide)).2 ?_
  intro before a after he
  rcases before with _ | ⟨_, _ | ⟨_, _ | ⟨_, _ | ⟨_, _ | ⟨_, _ | ⟨_, before⟩⟩⟩⟩⟩⟩ <;>
    simp only [List.nil_append, List.cons_append, List.cons.injEq, List.nil_eq,
      List.append_eq_nil_iff, reduceCtorEq, and_false] at he
  all_goals
    casesm* _ ∧ _
    subst_vars
  all_goals decide

end Trail

end SessionBroker
