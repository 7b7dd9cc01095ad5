/-
  The depth of the audit queue, command by command (`audit.rs`,
  `store/writer.rs`).

  * the writer of `Trail` takes a batch at once.  `Accounting` takes it as the
    thread does: a command at a time off the queue, then a `fetch_sub` for each
    `Audit` of the batch, then the transaction.  `writer_turn` says that these
    come to the same;
  * `counted`: the `Audit` commands between their `fetch_add` and their
    `fetch_sub`, on their way to the queue, in it or in the writer's hand;
  * `depth_accounts`: the depth is that number at every moment.  It is no count
    of the queue: `depth_leads_queue`.
-/
import SessionBroker.Audit

namespace SessionBroker

open Runs

/-! ## The writer, command by command -/

/-- Where the thread is: filling `batch`, or in `apply_batch` with the depth of
    `rest` still to release. -/
inductive WriterPhase where
  | collecting (batch : List Command)
  | releasing (batch rest : List Command)
deriving DecidableEq, Repr

structure Accounting where
  trail : Trail
  writer : WriterPhase
deriving DecidableEq, Repr

inductive AccountingStep where
  | record (event : Event)
  /-- The `i`-th `record` call goes on. -/
  | advance (i : ℕ)
  /-- Somebody else sends a command, or the sink a prune. -/
  | other (cmd : {cmd : Command // auditRows [cmd] = [] ∧ cmd ≠ .shutdown})
  /-- The writer goes on; `faults` and the two flags matter to the transaction. -/
  | writer (faults : ℕ → Bool) (beginFails commitFails : Bool)

namespace Accounting

def new (db : Db) : Accounting := ⟨.new db, .collecting []⟩

/-- One step of the thread: `recv`, `try_recv`, one turn of the release loop, or
    the transaction. -/
def writerStep (ring : KeyRing) (s : Accounting) (faults : ℕ → Bool)
    (beginFails commitFails : Bool) : Accounting :=
  match s.writer with
  | .collecting batch =>
    match s.trail.queue with
    | cmd :: queue => ⟨{ s.trail with queue }, .collecting (batch ++ [cmd])⟩
    | [] => if batch = [] then s else { s with writer := .releasing batch batch }
  | .releasing batch (cmd :: rest) =>
    ⟨{ s.trail with depth := s.trail.depth - (auditRows [cmd]).length }, .releasing batch rest⟩
  | .releasing batch [] =>
    let o := applyBatch ring s.trail.db
      ⟨batch.mapIdx fun i cmd => (cmd, faults i), beginFails, commitFails⟩
    ⟨{ s.trail with
        db := o.committed.getD s.trail.db
        landed := s.trail.landed ++ if o.committed.isSome then auditRows batch else [] },
      .collecting []⟩

def step (config : AuditConfig) (ring : KeyRing) (s : Accounting) : AccountingStep → Accounting
  | .record event => { s with trail := s.trail.step config ring (.record event) }
  | .advance i => { s with trail := s.trail.step config ring (.advance i) }
  | .other cmd => { s with trail := { s.trail with queue := s.trail.queue ++ [cmd.1] } }
  | .writer faults beginFails commitFails => s.writerStep ring faults beginFails commitFails

/-! ## What is counted -/

end Accounting

/-- A call between its `fetch_add` and its send. -/
def Recording.inFlight (call : Recording) : ℕ :=
  match call.todo with
  | .send _ :: _ => 1
  | _ => 0

/-- The commands taken off the queue and not released. -/
def WriterPhase.unreleased : WriterPhase → List Command
  | collecting batch => batch
  | releasing _ rest => rest

/-- The `Audit` commands counted in and not released. -/
def Accounting.counted (s : Accounting) : ℕ :=
  (s.trail.calls.map Recording.inFlight).sum + (auditRows s.trail.queue).length +
    (auditRows s.writer.unreleased).length

/-- What can be left of a call: before the test, before the drop or the swap, or
    some rows to enqueue, the first of which may be counted. -/
inductive RecordStep.Pending : List RecordStep → Prop
  | check : Pending [.check]
  | drop : Pending [.drop]
  | swap : Pending [.swap]
  | rows (rows : List AuditRow) : Pending (rows.flatMap enqueueSteps)
  | counted (row : AuditRow) (rows : List AuditRow) :
      Pending (.send row :: rows.flatMap enqueueSteps)

namespace Accounting

variable {config : AuditConfig} {ring : KeyRing} {s : Accounting}

structure Accounted (s : Accounting) : Prop where
  pending : ∀ call ∈ s.trail.calls, RecordStep.Pending call.todo
  depth : s.trail.depth = s.counted

/-- **One step of a call**: what it counts is on its way or in the queue. -/
theorem recordStep_counted (config : AuditConfig) (t : Trail) (row : AuditRow) {now : RecordStep}
    {rest : List RecordStep} (h : RecordStep.Pending (now :: rest)) :
    let r := t.recordStep config row now
    RecordStep.Pending (r.2 ++ rest) ∧ r.1.calls = t.calls ∧
      r.1.depth + Recording.inFlight ⟨row, now :: rest⟩ + (auditRows t.queue).length =
        t.depth + Recording.inFlight ⟨row, r.2 ++ rest⟩ + (auditRows r.1.queue).length := by
  intro r
  generalize htodo : now :: rest = todo at h
  cases h with
  | check =>
    obtain ⟨rfl, rfl⟩ := List.cons.inj htodo
    by_cases hfull : asI64 config.queueCapacity ≤ t.depth
    · have hr : r = (t, [.drop]) := by simp [r, Trail.recordStep, hfull]
      rw [hr]
      exact ⟨.drop, rfl, rfl⟩
    · have hr : r = (t, [.swap]) := by simp [r, Trail.recordStep, hfull]
      rw [hr]
      exact ⟨.swap, rfl, rfl⟩
  | drop =>
    obtain ⟨rfl, rfl⟩ := List.cons.inj htodo
    exact ⟨.rows [], rfl, rfl⟩
  | swap =>
    obtain ⟨rfl, rfl⟩ := List.cons.inj htodo
    -- the gap row first, if there is one
    obtain ⟨rows, hrows⟩ : ∃ rows, r.2 ++ [] = List.flatMap enqueueSteps (rows ++ [row]) := by
      by_cases hgap : 0 < t.pendingGap
      · exact ⟨[gapRow row.at_ t.pendingGap], by simp [r, Trail.recordStep, hgap]⟩
      · exact ⟨[], by simp [r, Trail.recordStep, hgap]⟩
    have hcount : Recording.inFlight ⟨row, r.2 ++ []⟩ = 0 := by
      rw [hrows]
      cases rows <;> rfl
    refine ⟨hrows ▸ .rows _, rfl, ?_⟩
    rw [hcount]
    rfl
  | rows rows =>
    cases rows with
    | nil => cases htodo
    | cons row' rows =>
      obtain ⟨rfl, rfl⟩ := List.cons.inj htodo
      refine ⟨.counted row' rows, rfl, ?_⟩
      have hbefore : Recording.inFlight ⟨row, (row' :: rows).flatMap enqueueSteps⟩ = 0 := rfl
      have hafter : Recording.inFlight ⟨row, .send row' :: rows.flatMap enqueueSteps⟩ = 1 := rfl
      show t.depth + 1 + (Recording.inFlight ⟨row, (row' :: rows).flatMap enqueueSteps⟩ : ℤ) + _ =
        t.depth + (Recording.inFlight ⟨row, .send row' :: rows.flatMap enqueueSteps⟩ : ℤ) +
          ((auditRows t.queue).length : ℤ)
      rw [hbefore, hafter]
      push_cast
      omega
  | counted row' rows =>
    obtain ⟨rfl, rfl⟩ := List.cons.inj htodo
    refine ⟨.rows rows, rfl, ?_⟩
    have hcount : Recording.inFlight ⟨row, rows.flatMap enqueueSteps⟩ = 0 := by cases rows <;> rfl
    have hsent : (auditRows r.1.queue).length = (auditRows t.queue).length + 1 := by
      simp [r, Trail.recordStep, auditRows]
    show t.depth + _ + _ = t.depth + (Recording.inFlight ⟨row, rows.flatMap enqueueSteps⟩ : ℤ) + _
    rw [hcount, hsent]
    simp only [Recording.inFlight]
    omega

theorem accounted_new (db : Db) : (new db).Accounted :=
  ⟨fun _ h => absurd h List.not_mem_nil, rfl⟩

/-- A call that goes on, among the others. -/
theorem sum_set (call' : Recording) {calls : List Recording} {i : ℕ} {call : Recording}
    (h : calls[i]? = some call) :
    ((calls.set i call').map Recording.inFlight).sum + call.inFlight =
      (calls.map Recording.inFlight).sum + call'.inFlight := by
  induction calls generalizing i with
  | nil => cases h
  | cons c calls ih =>
    cases i with
    | zero =>
      cases h
      simp only [List.set_cons_zero, List.map_cons, List.sum_cons]
      omega
    | succ i =>
      have := ih h
      simp only [List.set_cons_succ, List.map_cons, List.sum_cons]
      omega

theorem Accounted.advance (h : s.Accounted) (i : ℕ) : (s.step config ring (.advance i)).Accounted := by
  unfold step Trail.step
  dsimp only
  split
  · rename_i row now rest hi
    obtain ⟨hpending, hcalls, hdepth⟩ := recordStep_counted config s.trail row
      (h.pending _ (List.mem_of_getElem? hi))
    constructor
    · intro call hc
      rcases List.mem_or_eq_of_mem_set hc with hc | rfl
      · exact h.pending call hc
      · exact hpending
    · have hsum := sum_set ⟨row, (s.trail.recordStep config row now).2 ++ rest⟩ hi
      have hd := h.depth
      unfold counted at hd ⊢
      dsimp only
      omega
  · exact h

theorem Accounted.writer (h : s.Accounted) (faults : ℕ → Bool) (beginFails commitFails : Bool) :
    (s.writerStep ring faults beginFails commitFails).Accounted := by
  have hd := h.depth
  unfold counted at hd
  unfold writerStep
  split
  · rename_i batch hw
    rw [hw] at hd
    split
    · rename_i cmd queue hq
      refine ⟨h.pending, ?_⟩
      -- from the queue into the writer's hand
      rw [hq, ← List.singleton_append, auditRows_append] at hd
      simp only [counted, WriterPhase.unreleased, auditRows_append, List.length_append] at hd ⊢
      omega
    · split_ifs
      · exact h
      · refine ⟨h.pending, ?_⟩
        simpa [counted, WriterPhase.unreleased] using hd
  · rename_i batch cmd rest hw
    rw [hw] at hd
    refine ⟨h.pending, ?_⟩
    have hsplit : auditRows (cmd :: rest) = auditRows [cmd] ++ auditRows rest :=
      auditRows_append [cmd] rest
    simp only [counted, WriterPhase.unreleased, hsplit, List.length_append] at hd ⊢
    omega
  · rename_i batch hw
    rw [hw] at hd
    exact ⟨h.pending, hd⟩

theorem Accounted.step (h : s.Accounted) (a : AccountingStep) : (s.step config ring a).Accounted := by
  cases a with
  | record event =>
    constructor
    · intro call hc
      rcases List.mem_append.1 hc with hc | hc
      · exact h.pending call hc
      · cases List.mem_singleton.1 hc
        exact .check
    · have hd := h.depth
      simpa [Accounting.step, Trail.step, counted, Recording.inFlight] using hd
  | advance i => exact h.advance i
  | other cmd =>
    refine ⟨h.pending, ?_⟩
    have hd := h.depth
    simpa [Accounting.step, counted, cmd.2.1] using hd
  | writer faults beginFails commitFails => exact h.writer faults beginFails commitFails

theorem run_accounted (config : AuditConfig) (ring : KeyRing) (db : Db) (steps : List AccountingStep) :
    (run (step config ring) (new db) steps).Accounted :=
  run_preserves (fun _ a h => h.step a) (accounted_new db) steps

/-! ## A turn of the writer -/

section
variable {t : Trail} {faults : ℕ → Bool} {beginFails commitFails : Bool}

theorem run_collecting (config : AuditConfig) (ring : KeyRing) (batch queue : List Command) :
    run (step config ring) ⟨{ t with queue }, .collecting batch⟩
        (List.replicate queue.length (.writer faults beginFails commitFails)) =
      ⟨{ t with queue := [] }, .collecting (batch ++ queue)⟩ := by
  induction queue generalizing batch with
  | nil => rw [List.append_nil]; rfl
  | cons cmd queue ih =>
    have hrest := ih (batch ++ [cmd])
    rw [List.append_assoc] at hrest
    exact hrest

theorem run_releasing (config : AuditConfig) (ring : KeyRing) (batch rest : List Command) :
    run (step config ring) ⟨t, .releasing batch rest⟩
        (List.replicate rest.length (.writer faults beginFails commitFails)) =
      ⟨{ t with depth := t.depth - (auditRows rest).length }, .releasing batch []⟩ := by
  induction rest generalizing t with
  | nil => simp [auditRows]
  | cons cmd rest ih =>
    have hrest := ih (t := { t with depth := t.depth - (auditRows [cmd]).length })
    have hsplit : auditRows (cmd :: rest) = auditRows [cmd] ++ auditRows rest :=
      auditRows_append [cmd] rest
    have hdepth : t.depth - (auditRows [cmd]).length - (auditRows rest).length =
        t.depth - (auditRows (cmd :: rest)).length := by
      rw [hsplit, List.length_append]
      push_cast
      omega
    rw [← hdepth]
    exact hrest

/-- **A turn that nothing interrupts** is the `write` of `Trail` that takes the
    whole queue. -/
theorem writer_turn (config : AuditConfig) (ring : KeyRing) (hqueue : t.queue ≠ []) :
    run (step config ring) ⟨t, .collecting []⟩
        (List.replicate (t.queue.length + (1 + (t.queue.length + 1)))
          (.writer faults beginFails commitFails)) =
      ⟨t.step config ring (.write t.queue.length faults beginFails commitFails), .collecting []⟩ := by
  have hcollect : run (step config ring) ⟨t, .collecting []⟩
      (List.replicate t.queue.length (.writer faults beginFails commitFails)) =
        ⟨{ t with queue := [] }, .collecting t.queue⟩ :=
    run_collecting config ring [] t.queue
  have hrelease : run (step config ring) ⟨{ t with queue := [] }, .collecting t.queue⟩
      (List.replicate 1 (.writer faults beginFails commitFails)) =
        ⟨{ t with queue := [] }, .releasing t.queue t.queue⟩ := by
    simp [run, step, writerStep, hqueue]
  have hreleased : run (step config ring) ⟨{ t with queue := [] }, .releasing t.queue t.queue⟩
      (List.replicate t.queue.length (.writer faults beginFails commitFails)) =
        ⟨{ t with queue := [], depth := t.depth - (auditRows t.queue).length },
          .releasing t.queue []⟩ :=
    run_releasing config ring t.queue t.queue
  rw [List.replicate_add, run_append, hcollect, List.replicate_add, run_append, hrelease,
    List.replicate_add, run_append, hreleased]
  simp [run, step, writerStep, Trail.step, Trail.batch]

end

/-! ## The bound -/

theorem counted_eq_zero_iff : s.counted = 0 ↔
    (∀ call ∈ s.trail.calls, call.inFlight = 0) ∧ auditRows s.trail.queue = [] ∧
      auditRows s.writer.unreleased = [] := by
  simp only [counted, Nat.add_eq_zero_iff, List.sum_eq_zero_iff_forall_eq_nat, List.forall_mem_map,
    List.length_eq_zero_iff, and_assoc]

/-- A call at its test. -/
theorem advance_check {i : ℕ} {row : AuditRow} (h : s.trail.calls[i]? = some ⟨row, [.check]⟩) :
    (s.step config ring (.advance i)).trail.calls[i]? = some ⟨row, [.drop]⟩ ↔
      asI64 config.queueCapacity ≤ s.trail.depth := by
  have hi : i < s.trail.calls.length := (List.getElem?_eq_some_iff.1 h).1
  have hstep : (s.step config ring (.advance i)).trail.calls[i]? =
      some ⟨row, if asI64 config.queueCapacity ≤ s.trail.depth then [.drop] else [.swap]⟩ := by
    simp only [step, Trail.step, h, Trail.recordStep, List.append_nil]
    exact List.getElem?_set_self hi
  rw [hstep]
  split_ifs with hfull <;> simp [hfull]

/-- **The depth is the number of `Audit` commands counted and not released**, at
    every moment: never negative, zero just when there is none.  An event is
    refused just when the capacity or more of them are counted. -/
theorem depth_accounts (config : AuditConfig) (ring : KeyRing) (db : Db)
    (steps : List AccountingStep) :
    let s := run (step config ring) (new db) steps
    s.trail.depth = s.counted ∧ 0 ≤ s.trail.depth ∧
    (s.trail.depth = 0 ↔ (∀ call ∈ s.trail.calls, call.inFlight = 0) ∧
      auditRows s.trail.queue = [] ∧ auditRows s.writer.unreleased = []) ∧
    (config.queueCapacity < 2 ^ 63 → ∀ i row, s.trail.calls[i]? = some ⟨row, [.check]⟩ →
      ((s.step config ring (.advance i)).trail.calls[i]? = some ⟨row, [.drop]⟩ ↔
        config.queueCapacity ≤ s.counted)) := by
  intro s
  have hdepth : s.trail.depth = s.counted := (run_accounted config ring db steps).depth
  refine ⟨hdepth, by omega, ?_, ?_⟩
  · rw [← counted_eq_zero_iff]
    omega
  · intro hcap i row hi
    rw [advance_check hi, asI64_of_lt hcap]
    omega

/-- Two logins are to be recorded, and the first one is counted. -/
def countedLogin : List AccountingStep :=
  [.record Trail.login, .advance 0, .advance 0, .advance 0, .record Trail.login]

/-- **The depth is ahead of the queue.**  With room for one, the second login is
    refused while the queue is empty: the first is on its way there.  Once the
    writer has taken it the queue is empty again, and the depth still one. -/
theorem depth_leads_queue :
    let step := Accounting.step ⟨1, none⟩ ⟨1, [1]⟩
    let s := run step (new (.fresh ⟨0⟩)) countedLogin
    s.trail.queue = [] ∧ s.trail.depth = 1 ∧
    (step s (.advance 1)).trail.calls[1]? = some ⟨Trail.login.1, [.drop]⟩ ∧
    let s' := run step s [.advance 0, .writer (fun _ => false) false false]
    s'.trail.queue = [] ∧ s'.writer.unreleased = [.audit Trail.login.1] ∧ s'.trail.depth = 1 := by
  decide

theorem depth_accounts_login :
    let s := run (step ⟨1, none⟩ ⟨1, [1]⟩) (new (.fresh ⟨0⟩)) countedLogin
    s.counted = 1 ∧ s.trail.depth = 1 ∧
      (s.step ⟨1, none⟩ ⟨1, [1]⟩ (.advance 1)).trail.calls[1]? = some ⟨Trail.login.1, [.drop]⟩ := by
  obtain ⟨hdepth, -, -, hrefused⟩ := depth_accounts ⟨1, none⟩ ⟨1, [1]⟩ (.fresh ⟨0⟩) countedLogin
  have hcounted : (run (step ⟨1, none⟩ ⟨1, [1]⟩) (new (.fresh ⟨0⟩)) countedLogin).counted = 1 := by
    decide
  rw [hcounted] at hdepth
  exact ⟨hcounted, hdepth, (hrefused (by decide) 1 _ (by decide)).2 hcounted.ge⟩

end Accounting

end SessionBroker
