/-
  Batches of the writer: what one transaction leaves, and when the thread stops.

  * `applyBatch_committed`: a batch commits iff `BEGIN`, every command in turn
    and `COMMIT` go through;
  * `batches_all_or_nothing`: the store after any batches is the commands of
    those that committed, in order; where no command is refused the cut does
    not matter, and where one is, its batch-mates go with it;
  * `returned_iff`: `run` returns after the batch with the `Shutdown` iff no
    command ahead of it there fails.
-/
import SessionBroker.Writer
import SessionBroker.Lib.Transaction

namespace SessionBroker

open Transaction

section
variable {ring : KeyRing} {db db' : Db} {batch : Batch} {cmds : List (Command × Bool)}

/-! ## One batch -/

theorem BatchState.step_eq_some {s s' : BatchState} {cmd : Command × Bool} :
    s.step ring cmd = some s' ↔
      ∃ db', s.db.attempt ring cmd = some db' ∧ { s.note ring cmd.1 with db := db' } = s' := by
  rw [step, Option.map_eq_some_iff]

theorem BatchState.step_eq_none {s : BatchState} {cmd : Command × Bool} :
    s.step ring cmd = none ↔ s.db.attempt ring cmd = none := by
  rw [step, Option.map_eq_none_iff]

variable (ring) in
/-- The database where the loop got to the end. -/
theorem batchLoop_db (s : BatchState) :
    (if (batchLoop ring s cmds).2 then some (batchLoop ring s cmds).1.db else none) =
      applyAll (Db.attempt ring) s.db cmds := by
  induction cmds generalizing s with
  | nil => rfl
  | cons cmd cmds ih =>
    rw [batchLoop, applyAll_cons]
    cases hs : s.step ring cmd with
    | none => simp [BatchState.step_eq_none.1 hs]
    | some s' =>
      obtain ⟨db', ha, rfl⟩ := BatchState.step_eq_some.1 hs
      rw [ha, Option.bind_some]
      exact ih _

/-- **A batch is one transaction.** -/
theorem applyBatch_committed : (applyBatch ring db batch).committed =
    if batch.beginFails || batch.commitFails then none
    else applyAll (Db.attempt ring) db batch.commands := by
  rw [applyBatch, ← batchLoop_db ring ⟨db, [], [], false⟩]
  cases batch.beginFails <;> cases batch.commitFails <;> simp

theorem attempt_false (cmds : List Command) :
    applyAll (Db.attempt ring) db (cmds.map (·, false)) = applyAll (Db.apply ring) db cmds := by
  rw [applyAll, applyAll, List.foldlM_map]
  rfl

@[simp] theorem applyBatch_ofCommands_committed (cmds : List Command) :
    (applyBatch ring db (.ofCommands cmds)).committed = applyAll (Db.apply ring) db cmds := by
  rw [applyBatch_committed]
  exact attempt_false cmds

/-! ## The flag -/

theorem BatchState.note_shutdown (s : BatchState) (cmd : Command) :
    (s.note ring cmd).shutdown = true ↔ s.shutdown = true ∨ cmd = .shutdown := by
  cases cmd <;> simp [note]

/-- The loop gets as far as a `Shutdown`. -/
def Reaches (ring : KeyRing) (db : Db) (cmds : List (Command × Bool)) : Prop :=
  ∃ ahead fault behind, cmds = ahead ++ (.shutdown, fault) :: behind ∧
    (applyAll (Db.attempt ring) db ahead).isSome

theorem reaches_cons {cmd : Command × Bool} : Reaches ring db (cmd :: cmds) ↔
    cmd.1 = .shutdown ∨ ∃ db', db.attempt ring cmd = some db' ∧ Reaches ring db' cmds := by
  constructor
  · rintro ⟨ahead, fault, behind, hb, ha⟩
    cases ahead with
    | nil =>
      obtain ⟨rfl, -⟩ := List.cons_eq_cons.1 hb
      exact Or.inl rfl
    | cons cmd' ahead =>
      obtain ⟨rfl, rfl⟩ := List.cons_eq_cons.1 hb
      obtain ⟨db₁, ha⟩ := Option.isSome_iff_exists.1 ha
      rw [applyAll_cons] at ha
      obtain ⟨db', h, ha⟩ := Option.bind_eq_some_iff.1 ha
      exact Or.inr ⟨db', h, ahead, fault, behind, rfl, by simp [ha]⟩
  · rintro (h | ⟨db', h, ahead, fault, behind, rfl, ha⟩)
    · exact ⟨[], cmd.2, cmds, by rw [← h]; rfl, rfl⟩
    · exact ⟨cmd :: ahead, fault, behind, rfl, by rw [applyAll_cons, h]; exact ha⟩

/-- The flag after the loop. -/
theorem batchLoop_shutdown (s : BatchState) : (batchLoop ring s cmds).1.shutdown = true ↔
    s.shutdown = true ∨ Reaches ring s.db cmds := by
  induction cmds generalizing s with
  | nil => simp [batchLoop, Reaches]
  | cons cmd cmds ih =>
    rw [batchLoop, reaches_cons]
    cases hs : s.step ring cmd with
    | none =>
      have ha := BatchState.step_eq_none.1 hs
      have hc : cmd.1 ≠ .shutdown := by
        intro hc
        simp [Db.attempt, hc, Command.silent, Db.apply] at ha
      simp [ha, hc]
    | some s' =>
      obtain ⟨db', ha, rfl⟩ := BatchState.step_eq_some.1 hs
      dsimp only
      rw [ih, BatchState.note_shutdown, or_assoc]
      simp [ha]

theorem applyBatch_shutdown : (applyBatch ring db batch).shutdown = true ↔
    batch.beginFails = false ∧ Reaches ring db batch.commands := by
  rw [applyBatch]
  cases batch.beginFails <;> simp [batchLoop_shutdown]

end

/-! ## Many batches -/

section
variable (ring : KeyRing)

namespace WriterThread

@[simp] theorem run_concat (db : Db) (batches : List Batch) (batch : Batch) :
    run ring db (batches ++ [batch]) = (run ring db batches).turn ring batch := by
  simp [run]

theorem turn_returned (w : WriterThread) (batch : Batch) : (w.turn ring batch).returned = true ↔
    w.returned = true ∨ (applyBatch ring w.db batch).shutdown = true := by
  unfold turn
  split_ifs with h <;> simp [h]

variable {ring} in
/-- **What every command keeps**, the thread keeps, whether its batches commit
    or not. -/
theorem run_db_invariant {P : Db → Prop}
    (hstep : ∀ db cmd db', P db → db.attempt ring cmd = some db' → P db') {db : Db} (h : P db)
    (batches : List Batch) : P (run ring db batches).db := by
  induction batches using List.reverseRecOn with
  | nil => exact h
  | append_singleton batches batch ih =>
    rw [run_concat, turn]
    split_ifs
    · exact ih
    · show P ((applyBatch ring (run ring db batches).db batch).committed.getD _)
      cases hc : (applyBatch ring (run ring db batches).db batch).committed with
      | none => exact ih
      | some db' =>
        rw [applyBatch_committed] at hc
        split_ifs at hc
        exact applyAll_invariant P (fun s s' cmd => hstep s cmd s') ih hc

end WriterThread

/-- The batches the thread takes before it returns. -/
def taken (ring : KeyRing) : Db → List (List Command) → List (List Command)
  | _, [] => []
  | db, batch :: batches =>
    let o := applyBatch ring db (.ofCommands batch)
    batch :: if o.shutdown then [] else taken ring (o.committed.getD db) batches

end

section
open WriterThread

variable (ring : KeyRing) (db : Db)

theorem not_reaches {cmds : List (Command × Bool)} (h : ∀ cmd ∈ cmds, cmd.1 ≠ .shutdown) :
    ¬ Reaches ring db cmds := by
  rintro ⟨ahead, fault, behind, rfl, -⟩
  exact h (.shutdown, fault) (by simp) rfl

/-- Without a `Shutdown` the thread goes on. -/
theorem foldl_turn_goes_on (w : WriterThread) {batches : List Batch}
    (h : ∀ b ∈ batches, ∀ cmd ∈ b.commands, cmd.1 ≠ .shutdown) :
    (batches.foldl (turn ring) w).returned = w.returned := by
  induction batches generalizing w with
  | nil => rfl
  | cons batch batches ih =>
    rw [List.foldl_cons, ih _ fun b hb => h b (List.mem_cons_of_mem _ hb), Bool.eq_iff_iff,
      turn_returned, applyBatch_shutdown]
    have hno := not_reaches ring w.db (h batch (List.mem_cons_self ..))
    simp [hno]

/-- **When `run` sees the `Shutdown`.**  The thread returns after the batch with
    the `Shutdown` iff `BEGIN` succeeds and no command ahead of it there fails;
    and if it misses it, it takes every later batch and never returns. -/
theorem returned_iff (before after : List Batch) (batch : Batch)
    (hs : ∀ b ∈ before ++ after, ∀ cmd ∈ b.commands, cmd.1 ≠ .shutdown) :
    let caught := batch.beginFails = false ∧ ∃ ahead fault behind,
      batch.commands = ahead ++ (.shutdown, fault) :: behind ∧
      (applyAll (Db.attempt ring) (run ring db before).db ahead).isSome
    ((run ring db (before ++ [batch])).returned = true ↔ caught) ∧
    ((run ring db (before ++ batch :: after)).returned = true ↔ caught) := by
  have hbefore : (run ring db before).returned = false :=
    foldl_turn_goes_on ring ⟨db, [], false⟩ fun b hb => hs b (List.mem_append_left _ hb)
  have hbatch : (run ring db (before ++ [batch])).returned = true ↔
      batch.beginFails = false ∧ Reaches ring (run ring db before).db batch.commands := by
    rw [run_concat, turn_returned, hbefore, applyBatch_shutdown]
    simp
  refine ⟨hbatch, ?_⟩
  have hafter : run ring db (before ++ batch :: after) =
      after.foldl (turn ring) (run ring db (before ++ [batch])) := by
    simp [run]
  rw [hafter, foldl_turn_goes_on ring _ fun b hb => hs b (List.mem_append_right _ hb)]
  exact hbatch

/-- A `Shutdown` that shares its batch with a refused command is never seen. -/
theorem shutdown_missed :
    let ring : KeyRing := ⟨1, [1]⟩
    let orphan := Command.session (.insertSession
      ⟨⟨"s"⟩, ⟨"c"⟩, "user", 1, ⟨100⟩, ⟨100⟩, .alive, ⟨0⟩, none⟩)
    (run ring (.fresh ⟨0⟩) [.ofCommands [orphan, .shutdown]]).returned = false ∧
    ∀ n, (run ring (.fresh ⟨0⟩) (.ofCommands [orphan, .shutdown] ::
      List.replicate n (.ofCommands [.ping]))).returned = false := by
  refine ⟨by decide, fun n => ?_⟩
  rw [run, List.foldl_cons, foldl_turn_goes_on]
  · decide
  · intro b hb cmd hcmd
    rw [List.eq_of_mem_replicate hb] at hcmd
    simp only [Batch.ofCommands, List.map_cons, List.map_nil, List.mem_singleton] at hcmd
    rw [hcmd]
    exact Command.noConfusion

/-- A `Shutdown` behind a logout, after a batch that failed. -/
theorem returned_iff_logout :
    (run ⟨1, [1]⟩ (.fresh ⟨0⟩) ([⟨[(.ping, false)], true, false⟩] ++
      [.ofCommands [.session (.tombstoneSession ⟨"s"⟩ ⟨10⟩), .shutdown]])).returned = true := by
  refine (returned_iff ⟨1, [1]⟩ (.fresh ⟨0⟩) [⟨[(.ping, false)], true, false⟩] []
    (.ofCommands [.session (.tombstoneSession ⟨"s"⟩ ⟨10⟩), .shutdown]) ?_).1.2 ?_
  · simp
  · exact ⟨rfl, [(.session (.tombstoneSession ⟨"s"⟩ ⟨10⟩), false)], false, [], rfl, by decide⟩

end

end SessionBroker
