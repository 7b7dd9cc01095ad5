/-
  What the scheduler, the logins and the writer agree on about a custody.

  * `KeepaliveWorker.Sane`: a tick works on distinct custodies, none of them
    dead, and still owes what the scheduler holds;
  * `Coherent`: what is scheduled is in the store, a login's request comes from
    a row of its own, and no write brings a custody back once its death is on
    the way;
  * `Coherent.run`: both hold in every run from a boot, so that a death the
    writer has applied stays in the store.
-/
import SessionBroker.Keepalive
import SessionBroker.Integrity

namespace SessionBroker

open Table Transaction Runs

/-! ## Custody rows -/

namespace Db

variable {ring : KeyRing} {db db' : Db} {custody : CustodyId}

def HasCustody (db : Db) (custody : CustodyId) : Prop :=
  ∃ c ∈ db.custody, c.custodyId = custody

def DeadCustody (db : Db) (custody : CustodyId) : Prop :=
  db.HasCustody custody ∧ ∀ c ∈ db.custody, c.custodyId = custody → c.status = .dead

end Db

namespace Command

/-- A dead `Failure`. -/
def Kills (custody : CustodyId) : Command → Prop
  | .custody (.failure c .dead _ _ _) _ => c = custody
  | _ => False

/-- A `Success`, or a `Failure` that is not dead. -/
def Revives (custody : CustodyId) : Command → Prop
  | .custody (.success c _ _ _ _ _) _ => c = custody
  | .custody (.failure c status _ _ _) _ => c = custody ∧ status ≠ .dead
  | _ => False

/-- What logins and the worker send, with an acknowledgement channel below
    `next`. -/
def Ordinary (next : ℕ) : Command → Prop
  | .session _ => True
  | .custody _ ack => ack < next
  | _ => False

end Command

namespace Db

section
variable {ring : KeyRing} {db db' : Db} {custody : CustodyId} {cmd : Command} {next : ℕ}

/-- An `UPDATE` of the rows of one custody. -/
theorem mem_updateCustody {c : CustodyId} {f : CustodyRecord → CustodyRecord}
    (h : db'.custody = updateWhere (fun r => r.custodyId = c) f db.custody)
    (hf : ∀ r, (f r).custodyId = r.custodyId) :
    (db.HasCustody custody → db'.HasCustody custody) ∧
    ∀ r ∈ db'.custody, r.custodyId = custody →
      (r ∈ db.custody ∧ custody ≠ c) ∨ ∃ r₀ ∈ db.custody, custody = c ∧ r = f r₀ := by
  unfold HasCustody
  rw [h]
  constructor
  · rintro ⟨r, hr, rfl⟩
    by_cases hc : r.custodyId = c
    · exact ⟨f r, mem_updateWhere.2 ⟨r, hr, by simp [hc]⟩, hf r⟩
    · exact ⟨r, mem_updateWhere.2 ⟨r, hr, by simp [hc]⟩, rfl⟩
  · rintro r hr rfl
    obtain ⟨r₀, h₀, h⟩ := mem_updateWhere.1 hr
    simp only [decide_eq_true_eq] at h
    split_ifs at h with hc
    · subst h
      exact Or.inr ⟨r₀, h₀, (hf r₀).trans hc, rfl⟩
    · subst h
      exact Or.inl ⟨h₀, hc⟩

/-- An ordinary command keeps the custody rows, but for a status. -/
theorem apply_custody (ho : cmd.Ordinary next) (ha : db.apply ring cmd = some db') :
    (db.HasCustody custody → db'.HasCustody custody) ∧
    (¬ cmd.Revives custody → db.DeadCustody custody → db'.DeadCustody custody) ∧
    (cmd.Kills custody → db.HasCustody custody → db'.DeadCustody custody) := by
  cases cmd with
  | session cmd =>
    obtain ⟨t, -, rfl⟩ := Option.map_eq_some_iff.1 ha
    exact ⟨id, fun _ => id, False.elim⟩
  | custody write ack =>
    cases write with
    | insert row =>
      obtain ⟨rows, hrows, rfl⟩ := Option.map_eq_some_iff.1 ha
      obtain ⟨hnew, rfl⟩ := insertRow_eq_some.1 hrows
      refine ⟨?_, ?_, False.elim⟩
      · rintro ⟨r, hr, hc⟩
        exact ⟨r, List.mem_append_left _ hr, hc⟩
      rintro - ⟨⟨r, hr, hc⟩, hd⟩
      refine ⟨⟨r, List.mem_append_left _ hr, hc⟩, fun r' hr' hc' => ?_⟩
      rcases List.mem_append.1 hr' with hr' | hr'
      · exact hd r' hr' hc'
      · -- its key is taken
        rw [List.mem_singleton.1 hr'] at hc'
        exact absurd (hc.trans hc'.symm) (hnew r hr)
    | success c refreshTok accessTok accessExp nextRefresh now =>
      cases ha
      obtain ⟨hhas, hrows⟩ := mem_updateCustody (rfl : (db.updateCustodySuccess ring c refreshTok
        accessTok accessExp nextRefresh now).custody = _) fun _ => rfl
      refine ⟨hhas, ?_, False.elim⟩
      rintro hr ⟨hex, hd⟩
      refine ⟨hhas hex, fun r hr' hc => ?_⟩
      rcases hrows r hr' hc with ⟨hr', -⟩ | ⟨-, -, rfl, -⟩
      · exact hd r hr' hc
      · exact absurd rfl hr
    | failure c status failCount nextRefresh now =>
      cases ha
      obtain ⟨hhas, hrows⟩ := mem_updateCustody (rfl : (db.updateCustodyFailure c status failCount
        nextRefresh now).custody = _) fun _ => rfl
      have hdead : (custody = c → status = .dead) → db.HasCustody custody →
          (custody ≠ c → ∀ r ∈ db.custody, r.custodyId = custody → r.status = .dead) →
          DeadCustody (db.updateCustodyFailure c status failCount nextRefresh now) custody := by
        refine fun hst hex hd => ⟨hhas hex, fun r hr' hc => ?_⟩
        rcases hrows r hr' hc with ⟨hr', hne⟩ | ⟨r₀, -, hc', rfl⟩
        · exact hd hne r hr' hc
        · exact hst hc'
      refine ⟨hhas, fun hr hd => hdead (fun hc => ?_) hd.1 fun _ => hd.2, fun hk hex => ?_⟩
      · by_contra hne
        exact hr ⟨hc.symm, hne⟩
      · cases status with
        | dead => exact hdead (fun _ => rfl) hex fun hne => absurd hk.symm hne
        | _ => exact hk.elim
  | _ => exact ho.elim

/-- An `INSERT` of a custody that goes through is the first of it. -/
theorem apply_insert {row : FullCustodyRow} {ack : ℕ}
    (ha : db.apply ring (.custody (.insert row) ack) = some db') :
    ¬ db.HasCustody row.custodyId ∧ db'.HasCustody row.custodyId := by
  obtain ⟨rows, hrows, rfl⟩ := Option.map_eq_some_iff.1 ha
  obtain ⟨hnew, rfl⟩ := insertRow_eq_some.1 hrows
  constructor
  · rintro ⟨r, hr, hc⟩
    exact hnew r hr hc
  · exact ⟨_, List.mem_append_right _ (List.mem_singleton_self _), rfl⟩

variable {cmds : List Command}

theorem HasCustody.applyAll (ho : ∀ cmd ∈ cmds, cmd.Ordinary next)
    (ha : applyAll (Db.apply ring) db cmds = some db') (h : db.HasCustody custody) :
    db'.HasCustody custody :=
  applyAll_preserves (·.HasCustody custody)
    (fun _ _ _ hc h ha => (apply_custody (ho _ hc) ha).1 h) h ha

theorem DeadCustody.applyAll (ho : ∀ cmd ∈ cmds, cmd.Ordinary next)
    (hr : ∀ cmd ∈ cmds, ¬ cmd.Revives custody) (ha : applyAll (Db.apply ring) db cmds = some db')
    (h : db.DeadCustody custody) : db'.DeadCustody custody :=
  applyAll_preserves (·.DeadCustody custody)
    (fun _ _ _ hc h ha => (apply_custody (ho _ hc) ha).2.1 (hr _ hc) h) h ha

end

end Db

/-! ## The worker -/

theorem flatten_toChunksGo (n : ℕ) (xs : List CustodyId) (chunk : Array CustodyId)
    (chunks : Array (List CustodyId)) : (List.toChunks.go n xs chunk chunks).flatten =
      chunks.toList.flatten ++ chunk.toList ++ xs := by
  induction xs generalizing chunk chunks with
  | nil => simp [List.toChunks.go]
  | cons x xs ih =>
    rw [List.toChunks.go]
    split_ifs <;> simp [ih]

theorem flatten_toChunks (n : ℕ) (xs : List CustodyId) : (xs.toChunks n).flatten = xs := by
  unfold List.toChunks
  split
  · rfl
  · simp
  · simp [flatten_toChunksGo]

namespace KeepaliveWorker

/-- What the worker works on, and what it owes. -/
structure Sane (w : KeepaliveWorker) : Prop where
  work : (w.inflight ++ w.chunks.flatten).Nodup
  live : ∀ c ∈ w.inflight ++ w.chunks.flatten,
    ∃ status, w.scheduler.statusOf c = some status ∧ status ≠ .dead
  owed : ∀ c status now, .persistFailure c status now ∈ w.todo →
    w.scheduler.statusOf c = some status

/-- What a worker scheduled stays scheduled, and what it holds dead stays dead. -/
def Keeps (w w' : KeepaliveWorker) : Prop :=
  ∀ c, ((w'.scheduler.statusOf c).isSome ↔ (w.scheduler.statusOf c).isSome) ∧
    (w.scheduler.statusOf c = some .dead → w'.scheduler.statusOf c = some .dead)

variable {w : KeepaliveWorker} {now : Timestamp} {draw : Draw}

theorem Idle.sane (h : w.Idle) : w.Sane where
  work := by simp [h.1, h.2.1]
  live := by simp [h.1, h.2.1]
  owed := by simp [h.2.2]

theorem tick_sane (h : w.Idle) (now : Timestamp) : (w.tick now).Sane ∧ w.Keeps (w.tick now) := by
  obtain ⟨hstatus, hnodup, hlive⟩ := Scheduler.takeDue_spec w.scheduler now
  have hwork : (w.tick now).inflight ++ (w.tick now).chunks.flatten =
      (w.scheduler.takeDue now).2 := by
    simp only [tick, h.2.1, List.nil_append, flatten_toChunks]
  refine ⟨⟨hwork ▸ hnodup, hwork ▸ hlive, fun c status now' hm => ?_⟩, fun c => ?_⟩
  · simp only [tick, h.2.2] at hm
    cases hm
  · rw [show (w.tick now).scheduler.statusOf c = _ from hstatus c]
    exact ⟨Iff.rfl, id⟩

theorem Sane.dispatch (h : w.Sane) (hi : w.inflight = []) : w.dispatch.Sane ∧ w.Keeps w.dispatch := by
  unfold KeepaliveWorker.dispatch
  split
  · exact ⟨h, fun c => ⟨Iff.rfl, id⟩⟩
  · rename_i chunk chunks hc
    have hwork : w.inflight ++ w.chunks.flatten = chunk ++ chunks.flatten := by
      rw [hi, hc]
      rfl
    exact ⟨⟨hwork ▸ h.work, hwork ▸ h.live, h.owed⟩, fun c => ⟨Iff.rfl, id⟩⟩

/-- One task joined. -/
theorem Sane.join {custody : CustodyId} {outcome : Option RefreshOutcome} (h : w.Sane)
    (hin : custody ∈ w.inflight) (ht : w.todo = []) :
    (w.join custody outcome now draw).Sane ∧ w.Keeps (w.join custody outcome now draw) := by
  have hsub : (w.inflight.erase custody ++ w.chunks.flatten).Sublist
      (w.inflight ++ w.chunks.flatten) := List.erase_sublist.append_right _
  have hnot : ∀ c ∈ w.inflight.erase custody ++ w.chunks.flatten, c ≠ custody := by
    have hw := h.work
    rw [List.nodup_append] at hw
    rintro c hc rfl
    rcases List.mem_append.1 hc with hc | hc
    · exact (List.Nodup.mem_erase_iff hw.1).1 hc |>.1 rfl
    · exact hw.2.2 c hin c hc rfl
  cases outcome with
  | none =>
    refine ⟨⟨h.work.sublist hsub, fun c hc => h.live c (hsub.subset hc), fun c status now' hm => ?_⟩,
      fun c => ⟨Iff.rfl, id⟩⟩
    simp only [KeepaliveWorker.join, ht] at hm
    cases hm
  | some outcome =>
    obtain ⟨hother, hself, hsome, -⟩ := Scheduler.record_spec w.scheduler custody now draw outcome
    refine ⟨⟨h.work.sublist hsub, fun c hc => ?_, fun c status now' hm => ?_⟩, fun c => ?_⟩
    · obtain ⟨status, hst, hd⟩ := h.live c (hsub.subset hc)
      exact ⟨status, (hother c (hnot c hc)).trans hst, hd⟩
    · have hact : c = custody ∧
          (w.scheduler.record custody outcome now draw).2 = some status := by
        simp only [KeepaliveWorker.join, actions] at hm
        rcases List.mem_append.1 hm with hm | hm
        · split at hm
          · cases hm
          · rename_i status' hst
            rcases List.mem_cons.1 hm with hm | hm
            · cases hm
            · split_ifs at hm
              · cases hm
              · cases List.mem_singleton.1 hm
                exact ⟨rfl, hst⟩
        · split_ifs at hm
          · cases List.mem_singleton.1 hm
          · cases hm
      obtain ⟨rfl, hst⟩ := hact
      exact hself.trans hst
    · by_cases hc : c = custody
      · subst hc
        refine ⟨by rw [← hsome, ← hself]; rfl, fun hd => ?_⟩
        -- what is in flight is not dead
        obtain ⟨status, hst, hne⟩ := h.live c (List.mem_append_left _ hin)
        rw [hst, Option.some.injEq] at hd
        exact absurd hd hne
      · rw [show (w.join custody (some outcome) now draw).scheduler.statusOf c = _ from hother c hc]
        exact ⟨Iff.rfl, id⟩

/-- One effect taken off. -/
theorem Sane.pop {action : WorkerAction} {todo : List WorkerAction} (h : w.Sane)
    (ht : w.todo = action :: todo) : ({ w with todo } : KeepaliveWorker).Sane :=
  ⟨h.work, h.live, fun c status now hm => h.owed c status now (ht ▸ List.mem_cons_of_mem _ hm)⟩

end KeepaliveWorker

/-! ## Scheduler, logins and writer -/

/-- Acknowledgements are of custody commands of the batch. -/
theorem mem_acks {ring : KeyRing} {db : Db} {batch : Batch} {ack : ℕ}
    (h : ack ∈ (applyBatch ring db batch).acks) :
    ∃ write fault, (.custody write ack, fault) ∈ batch.commands := by
  have hloop : ∀ (cmds : List (Command × Bool)) (s : BatchState),
      ack ∈ (batchLoop ring s cmds).1.acks →
        ack ∈ s.acks ∨ ∃ write fault, (.custody write ack, fault) ∈ cmds := by
    intro cmds
    induction cmds with
    | nil => exact fun s hs => Or.inl hs
    | cons cmd cmds ih =>
      intro s hs
      rw [batchLoop] at hs
      split at hs
      · exact Or.inl hs
      · rename_i s' hstep
        obtain ⟨db', -, rfl⟩ := BatchState.step_eq_some.1 hstep
        rcases ih _ hs with hs | ⟨write, fault, hc⟩
        · obtain ⟨cmd, fault⟩ := cmd
          cases cmd with
          | custody write ack' =>
            rcases List.mem_append.1 hs with hs | hs
            · exact Or.inl hs
            · rw [List.mem_singleton.1 hs]
              exact Or.inr ⟨write, fault, List.mem_cons_self ..⟩
          | _ => exact Or.inl hs
        · exact Or.inr ⟨write, fault, List.mem_cons_of_mem _ hc⟩
  unfold applyBatch at h
  split_ifs at h
  · cases h
  · rcases hloop _ _ h with h | h
    · cases h
    · exact h

namespace Broker

/-- A login waits for its row. -/
structure Awaits (s : Broker) (custody : CustodyId) (ack : ℕ) : Prop where
  issued : ack < s.nextAck
  insert : ∀ write, .custody write ack ∈ s.queue →
    ∃ row, write = .insert row ∧ row.custodyId = custody
  first : ack ∈ s.durable → s.db.HasCustody custody ∧
    s.worker.scheduler.statusOf custody = none ∧ ∀ r ∈ s.requests, r.custody ≠ custody

/-- Nothing later brings back what a command kills. -/
def Final (cmds : List Command) : Prop :=
  cmds.Pairwise fun cmd cmd' => ∀ custody, cmd.Kills custody → ¬ cmd'.Revives custody

structure Coherent (s : Broker) : Prop where
  integrity : s.db.Integrity
  worker : s.worker.Sane
  scheduled : ∀ custody, (s.worker.scheduler.statusOf custody).isSome → s.db.HasCustody custody
  request : ∀ r ∈ s.requests,
    s.db.HasCustody r.custody ∧ s.worker.scheduler.statusOf r.custody = none
  requests : (s.requests.map (·.custody)).Nodup
  ordinary : ∀ cmd ∈ s.queue, cmd.Ordinary s.nextAck
  durable : ∀ ack ∈ s.durable, ack < s.nextAck
  written : ∀ custody ack, s.login custody = some (.written ack) → s.Awaits custody ack
  dead : ∀ custody, (∃ cmd ∈ s.applied ++ s.queue, cmd.Kills custody) →
    s.worker.scheduler.statusOf custody = some .dead
  final : Final (s.applied ++ s.queue)
  gone : ∀ custody, (∃ cmd ∈ s.applied, cmd.Kills custody) → s.db.DeadCustody custody

variable {ring : KeyRing} {s : Broker}

theorem Coherent.setWorker {w : KeepaliveWorker} (h : s.Coherent) (hw : w.Sane)
    (hk : s.worker.Keeps w) : ({ s with worker := w } : Broker).Coherent := by
  have hnone : ∀ custody, s.worker.scheduler.statusOf custody = none →
      w.scheduler.statusOf custody = none := fun custody hn => by
    rw [← Option.not_isSome_iff_eq_none, (hk custody).1, hn]
    simp
  exact { h with
    worker := hw
    scheduled := fun custody hs => h.scheduled custody ((hk custody).1.1 hs)
    request := fun r hr => (h.request r hr).imp_right (hnone _)
    written := fun custody ack hl => by
      obtain ⟨h₁, h₂, h₃⟩ := h.written custody ack hl
      exact ⟨h₁, h₂, fun hd => (h₃ hd).imp_right (And.imp_left (hnone _))⟩
    dead := fun custody hd => (hk custody).2 (h.dead custody hd) }

/-- Commands go to the writer. -/
theorem Coherent.send {cmds : List Command} {next : ℕ} (h : s.Coherent) (hle : s.nextAck ≤ next)
    (ho : ∀ cmd ∈ cmds, cmd.Ordinary next)
    (hnew : ∀ write ack, .custody write ack ∈ cmds → s.nextAck ≤ ack)
    (hk : ∀ cmd ∈ cmds, ∀ custody, cmd.Kills custody →
      s.worker.scheduler.statusOf custody = some .dead)
    (hr : ∀ cmd ∈ cmds, ∀ custody, cmd.Revives custody →
      s.worker.scheduler.statusOf custody ≠ some .dead) :
    ({ s with queue := s.queue ++ cmds, nextAck := next } : Broker).Coherent where
  integrity := h.integrity
  worker := h.worker
  scheduled := h.scheduled
  request := h.request
  requests := h.requests
  ordinary := fun cmd hc => by
    rcases List.mem_append.1 hc with hc | hc
    · have hord := h.ordinary cmd hc
      cases cmd with
      | custody write ack => exact hord.trans_le hle
      | session => trivial
      | _ => exact hord.elim
    · exact ho cmd hc
  durable := fun ack hd => (h.durable ack hd).trans_le hle
  written := fun custody ack hl => by
    obtain ⟨h₁, h₂, h₃⟩ := h.written custody ack hl
    refine ⟨h₁.trans_le hle, fun write hc => ?_, h₃⟩
    rcases List.mem_append.1 hc with hc | hc
    · exact h₂ write hc
    · exact absurd (hnew write ack hc) (Nat.not_le.2 h₁)
  dead := by
    rintro custody ⟨cmd, hc, hkill⟩
    rw [← List.append_assoc] at hc
    rcases List.mem_append.1 hc with hc | hc
    · exact h.dead custody ⟨cmd, hc, hkill⟩
    · exact hk cmd hc custody hkill
  final := by
    rw [Final, ← List.append_assoc, List.pairwise_append]
    refine ⟨h.final, List.pairwise_iff_forall_sublist.2 fun {a b} hab custody hkill hrev => ?_,
      fun a ha b hb custody hkill hrev => ?_⟩
    · exact hr b (hab.subset (by simp)) custody hrev (hk a (hab.subset (by simp)) custody hkill)
    · exact hr b hb custody hrev (h.dead custody ⟨a, ha, hkill⟩)
  gone := h.gone

theorem Coherent.onSessions (h : s.Coherent) (m : SessionMap) : (s.onSessions m).Coherent := by
  have hsession : ∀ cmd ∈ m.queue.map Command.session, ∃ c, cmd = .session c := by
    simp only [List.mem_map]
    rintro _ ⟨c, -, rfl⟩
    exact ⟨c, rfl⟩
  have hs : ({ s with queue := s.queue ++ m.queue.map .session, nextAck := s.nextAck } :
      Broker).Coherent := by
    refine h.send le_rfl (fun cmd hc => ?_) (fun write ack hc => ?_) (fun cmd hc custody hk => ?_)
      fun cmd hc custody hr => ?_
    · obtain ⟨c, rfl⟩ := hsession cmd hc
      trivial
    · obtain ⟨c, hc⟩ := hsession _ hc
      cases hc
    · obtain ⟨c, rfl⟩ := hsession cmd hc
      exact hk.elim
    · obtain ⟨c, rfl⟩ := hsession cmd hc
      exact hr.elim
  exact { hs with
    written := fun custody ack hl => by
      obtain ⟨h₁, h₂, h₃⟩ := hs.written custody ack hl
      exact ⟨h₁, h₂, h₃⟩ }

theorem Coherent.sendCustody {write : CustodyWrite} (h : s.Coherent)
    (hk : ∀ custody, (Command.custody write s.nextAck).Kills custody →
      s.worker.scheduler.statusOf custody = some .dead)
    (hr : ∀ custody, (Command.custody write s.nextAck).Revives custody →
      s.worker.scheduler.statusOf custody ≠ some .dead) : (s.sendCustody write).Coherent := by
  refine h.send (Nat.le_succ _) ?_ ?_ ?_ ?_
  · rintro cmd hc
    rw [List.mem_singleton.1 hc]
    exact Nat.lt_succ_self _
  · rintro write' ack hc
    cases List.mem_singleton.1 hc
    exact le_rfl
  · rintro cmd hc
    rw [List.mem_singleton.1 hc]
    exact hk
  · rintro cmd hc
    rw [List.mem_singleton.1 hc]
    exact hr

/-- A login gets on. -/
theorem Coherent.setLogin (h : s.Coherent) {custody : CustodyId} {stage : LoginStage}
    (hs : ∀ ack, stage = .written ack → s.Awaits custody ack) :
    ({ s with login := Function.update s.login custody (some stage) } : Broker).Coherent :=
  { h with
    written := fun c ack hl => by
      obtain ⟨h₁, h₂, h₃⟩ : s.Awaits c ack := by
        dsimp only at hl
        by_cases hc : c = custody
        · subst hc
          rw [Function.update_self, Option.some.injEq] at hl
          exact hs ack hl
        · rw [Function.update_of_ne hc] at hl
          exact h.written c ack hl
      exact ⟨h₁, h₂, h₃⟩ }

/-- The request of a login whose row is durable. -/
theorem Coherent.schedule {custody : CustodyId} {ack : ℕ} {r : ScheduleRequest} (h : s.Coherent)
    (hl : s.login custody = some (.written ack)) (hd : ack ∈ s.durable) (hr : r.custody = custody) :
    ({ s with
        requests := s.requests ++ [r]
        login := Function.update s.login custody (some .scheduled) } : Broker).Coherent := by
  obtain ⟨hhas, hnone, hno⟩ := (h.written custody ack hl).first hd
  subst hr
  exact { h with
    request := fun r' hr' => by
      rcases List.mem_append.1 hr' with hr' | hr'
      · exact h.request r' hr'
      · rw [List.mem_singleton.1 hr']
        exact ⟨hhas, hnone⟩
    requests := by
      rw [List.map_append, List.map_singleton, ← List.concat_eq_append]
      refine h.requests.concat fun hm => ?_
      obtain ⟨r', hr', hc⟩ := List.mem_map.1 hm
      exact hno r' hr' hc
    written := fun c ack' hl' => by
      dsimp only at hl'
      by_cases hc : c = r.custody
      · rw [hc, Function.update_self] at hl'
        cases hl'
      · rw [Function.update_of_ne hc] at hl'
        obtain ⟨h₁, h₂, h₃⟩ := h.written c ack' hl'
        refine ⟨h₁, h₂, fun hd' => ?_⟩
        obtain ⟨h₄, h₅, h₆⟩ := h₃ hd'
        refine ⟨h₄, h₅, fun r' hr' => ?_⟩
        rcases List.mem_append.1 hr' with hr' | hr'
        · exact h₆ r' hr'
        · rw [List.mem_singleton.1 hr']
          exact fun hx => hc hx.symm }

/-- The worker takes a request. -/
theorem Coherent.accept {r : ScheduleRequest} {requests : List ScheduleRequest} (h : s.Coherent)
    (hi : s.worker.Idle) (hr : s.requests = r :: requests) (draw : Draw) :
    ({ s with
        requests
        worker := { s.worker with
          scheduler := s.worker.scheduler.insert r.custody r.issuedAt r.lifetimeSecs draw } } :
      Broker).Coherent := by
  obtain ⟨hhas, hnone⟩ := h.request r (hr ▸ List.mem_cons_self ..)
  have hother : ∀ custody, custody ≠ r.custody →
      (s.worker.scheduler.insert r.custody r.issuedAt r.lifetimeSecs draw).statusOf custody =
        s.worker.scheduler.statusOf custody := fun custody hc => by
    rw [Scheduler.insert, Scheduler.statusOf_put, if_neg hc]
  have hnodup := h.requests
  rw [hr, List.map_cons, List.nodup_cons] at hnodup
  have hrest : ∀ r' ∈ requests, r'.custody ≠ r.custody := fun r' hr' hc =>
    hnodup.1 (List.mem_map.2 ⟨r', hr', hc⟩)
  exact { h with
    worker := KeepaliveWorker.Idle.sane hi
    scheduled := fun custody hs => by
      by_cases hc : custody = r.custody
      · exact hc ▸ hhas
      · exact h.scheduled custody ((hother custody hc) ▸ hs)
    request := fun r' hr' => by
      obtain ⟨h₁, h₂⟩ := h.request r' (hr ▸ List.mem_cons_of_mem _ hr')
      exact ⟨h₁, (hother _ (hrest r' hr')).trans h₂⟩
    requests := hnodup.2
    written := fun custody ack hl => by
      obtain ⟨h₁, h₂, h₃⟩ := h.written custody ack hl
      refine ⟨h₁, h₂, fun hd => ?_⟩
      obtain ⟨h₄, h₅, h₆⟩ := h₃ hd
      have hc : custody ≠ r.custody := fun hc => h₆ r (hr ▸ List.mem_cons_self ..) hc.symm
      exact ⟨h₄, (hother custody hc).trans h₅, fun r' hr' =>
        h₆ r' (hr ▸ List.mem_cons_of_mem _ hr')⟩
    dead := fun custody hd => by
      have hs := h.dead custody hd
      refine (hother custody fun hc => ?_).trans hs
      rw [hc, hnone] at hs
      cases hs }

/-- The commands of a batch that does not commit are lost. -/
theorem Coherent.drop (h : s.Coherent) (count : ℕ) :
    ({ s with queue := s.queue.drop count } : Broker).Coherent := by
  have hsub := List.drop_sublist count s.queue
  exact { h with
    ordinary := fun cmd hc => h.ordinary cmd (hsub.subset hc)
    written := fun custody ack hl => by
      obtain ⟨h₁, h₂, h₃⟩ := h.written custody ack hl
      exact ⟨h₁, fun write hc => h₂ write (hsub.subset hc), h₃⟩
    dead := by
      rintro custody ⟨cmd, hc, hk⟩
      exact h.dead custody ⟨cmd, (hsub.append_left s.applied).subset hc, hk⟩
    final := h.final.sublist (hsub.append_left s.applied) }

/-- The row of a login that a batch brings was not there before. -/
theorem Coherent.inserted {count : ℕ} {db : Db} {custody : CustodyId} {write : CustodyWrite}
    {ack : ℕ} (h : s.Coherent) (hl : s.login custody = some (.written ack))
    (ha : applyAll (Db.apply ring) s.db (s.queue.take count) = some db)
    (hw : .custody write ack ∈ s.queue.take count) :
    ¬ s.db.HasCustody custody ∧ db.HasCustody custody := by
  have ho : ∀ cmd ∈ s.queue.take count, cmd.Ordinary s.nextAck := fun cmd hc =>
    h.ordinary cmd (List.mem_of_mem_take hc)
  obtain ⟨row, rfl, rfl⟩ := (h.written custody ack hl).insert write (List.mem_of_mem_take hw)
  obtain ⟨before, after, hsplit⟩ := List.append_of_mem hw
  rw [hsplit] at ha ho
  obtain ⟨db₁, ha₁, ha₂⟩ := applyAll_append_eq_some.1 ha
  rw [applyAll_cons, Option.bind_eq_some_iff] at ha₂
  obtain ⟨db₂, hins, ha₂⟩ := ha₂
  obtain ⟨habsent, hpresent⟩ := Db.apply_insert hins
  refine ⟨fun hc => habsent ?_, hpresent.applyAll (fun cmd hc => ho cmd ?_) ha₂⟩
  · exact hc.applyAll (fun cmd hc => ho cmd (List.mem_append_left _ hc)) ha₁
  · exact List.mem_append_right _ (List.mem_cons_of_mem _ hc)

/-- **A batch that commits.** -/
theorem Coherent.applied {count : ℕ} {db : Db} {acks : List ℕ} (h : s.Coherent)
    (ha : applyAll (Db.apply ring) s.db (s.queue.take count) = some db)
    (hacks : ∀ ack ∈ acks, ∃ write, .custody write ack ∈ s.queue.take count) :
    ({ s with
        queue := s.queue.drop count
        db
        applied := s.applied ++ s.queue.take count
        durable := s.durable ++ acks } : Broker).Coherent := by
  have htake : ∀ cmd ∈ s.queue.take count, cmd ∈ s.queue := fun cmd hc => List.mem_of_mem_take hc
  have hdrop : ∀ cmd ∈ s.queue.drop count, cmd ∈ s.queue := fun cmd hc => List.mem_of_mem_drop hc
  have ho : ∀ cmd ∈ s.queue.take count, cmd.Ordinary s.nextAck := fun cmd hc =>
    h.ordinary cmd (htake cmd hc)
  have hhas : ∀ custody, s.db.HasCustody custody → db.HasCustody custody := fun _ hc =>
    hc.applyAll ho ha
  have hsent : s.applied ++ s.queue.take count ++ s.queue.drop count = s.applied ++ s.queue := by
    rw [List.append_assoc, List.take_append_drop]
  exact {
    integrity := h.integrity.applyAll ha
    worker := h.worker
    scheduled := fun custody hs => hhas _ (h.scheduled custody hs)
    request := fun r hr => (h.request r hr).imp_left (hhas _)
    requests := h.requests
    ordinary := fun cmd hc => h.ordinary cmd (hdrop cmd hc)
    durable := fun ack hd => by
      rcases List.mem_append.1 hd with hd | hd
      · exact h.durable ack hd
      · obtain ⟨write, hw⟩ := hacks ack hd
        exact ho _ hw
    written := fun custody ack hl => by
      obtain ⟨h₁, h₂, h₃⟩ := h.written custody ack hl
      refine ⟨h₁, fun write hc => h₂ write (hdrop _ hc), fun hd => ?_⟩
      rcases List.mem_append.1 hd with hd | hd
      · exact (h₃ hd).imp_left (hhas _)
      · -- its row went in just now, so the custody was nowhere before
        obtain ⟨write, hw⟩ := hacks ack hd
        obtain ⟨habsent, hpresent⟩ := h.inserted hl ha hw
        refine ⟨hpresent, ?_, fun r hr hc => habsent (hc ▸ (h.request r hr).1)⟩
        exact Option.not_isSome_iff_eq_none.1 fun hs => habsent (h.scheduled _ hs)
    dead := fun custody hd => h.dead custody (hsent ▸ hd)
    final := hsent ▸ h.final
    gone := by
      rintro custody ⟨cmd, hc, hk⟩
      have hfin := h.final
      rw [← hsent] at hfin
      have hbatch := (List.pairwise_append.1 hfin).1
      rcases List.mem_append.1 hc with hc | hc
      · exact (h.gone custody ⟨cmd, hc, hk⟩).applyAll ho
          (fun cmd' hc' => (List.pairwise_append.1 hbatch).2.2 cmd hc cmd' hc' custody hk) ha
      · obtain ⟨before, after, hsplit⟩ := List.append_of_mem hc
        have hlater := (List.pairwise_append.1 hbatch).2.1
        rw [hsplit] at ha ho hlater
        obtain ⟨db₁, ha₁, ha₂⟩ := applyAll_append_eq_some.1 ha
        rw [applyAll_cons, Option.bind_eq_some_iff] at ha₂
        obtain ⟨db₂, hkill, ha₂⟩ := ha₂
        have hscheduled : (s.worker.scheduler.statusOf custody).isSome := by
          rw [h.dead custody ⟨cmd, List.mem_append_right _ (htake _ hc), hk⟩]
          rfl
        have hthere : db₁.HasCustody custody := (h.scheduled custody hscheduled).applyAll
          (fun cmd hc => ho cmd (List.mem_append_left _ hc)) ha₁
        have hdead := (Db.apply_custody (ho cmd (by simp)) hkill).2.2 hk hthere
        refine hdead.applyAll (fun cmd' hc' => ho cmd' ?_) (fun cmd' hc' => ?_) ha₂
        · exact List.mem_append_right _ (List.mem_cons_of_mem _ hc')
        · exact (List.pairwise_cons.1 (List.pairwise_append.1 hlater).2.1).1 cmd' hc' custody hk }

/-- What a commit leaves: its commands are lost, or all applied. -/
theorem commit_cases (ring : KeyRing) (s : Broker) (count : ℕ) (beginFails commitFails : Bool) :
    s.step ring (.commit count beginFails commitFails) = { s with queue := s.queue.drop count } ∨
    ∃ db acks, applyAll (Db.apply ring) s.db (s.queue.take count) = some db ∧
      (∀ ack ∈ acks, ∃ write, .custody write ack ∈ s.queue.take count) ∧
      s.step ring (.commit count beginFails commitFails) = { s with
        queue := s.queue.drop count
        db
        applied := s.applied ++ s.queue.take count
        durable := s.durable ++ acks } := by
  simp only [Broker.step, commitBatch]
  set o := applyBatch ring s.db
    ⟨(s.queue.take count).map (·, false), beginFails, commitFails⟩ with ho
  cases hc : o.committed with
  | none => exact Or.inl (by simp)
  | some db =>
    refine Or.inr ⟨db, o.acks, ?_, fun ack hack => ?_, ?_⟩
    · rw [ho, applyBatch_committed] at hc
      split_ifs at hc
      rwa [attempt_false] at hc
    · obtain ⟨write, fault, hm⟩ := mem_acks hack
      obtain ⟨cmd, hcmd, heq⟩ := List.mem_map.1 hm
      cases heq
      exact ⟨write, hcmd⟩
    · simp [List.map_map, Function.comp_def]

/-- **A step keeps the broker coherent.** -/
theorem Coherent.step (h : s.Coherent) (op : BrokerOp) : (s.step ring op).Coherent := by
  cases op with
  | takeCustody row =>
    simp only [Broker.step]
    split_ifs
    · have hsend : (s.sendCustody (.insert row)).Coherent :=
        h.sendCustody (fun _ => False.elim) fun _ => False.elim
      refine hsend.setLogin fun ack hack => ?_
      cases hack
      refine ⟨Nat.lt_succ_self _, fun write hc => ?_, fun hd => ?_⟩
      · rcases List.mem_append.1 hc with hc | hc
        · exact absurd (h.ordinary _ hc) (lt_irrefl _)
        · cases List.mem_singleton.1 hc
          exact ⟨row, rfl, rfl⟩
      · exact absurd (h.durable _ hd) (lt_irrefl _)
    · exact h
  | schedule custody issuedAt lifetimeSecs =>
    simp only [Broker.step]
    split
    · rename_i ack hl
      split_ifs with hd
      · exact h.schedule hl hd rfl
      · exact h
    · exact h
  | create sid custody sub token now =>
    simp only [Broker.step]
    split_ifs
    · exact (h.onSessions _).setLogin fun ack hack => by cases hack
    · exact h
  | accept draw =>
    simp only [Broker.step]
    split_ifs with hidle
    · split
      · exact h
      · rename_i r requests hr
        exact h.accept hidle hr draw
    · exact h
  | tick now =>
    simp only [Broker.step]
    split_ifs with hidle
    · obtain ⟨hw, hk⟩ := KeepaliveWorker.tick_sane hidle now
      exact h.setWorker hw hk
    · exact h
  | dispatch =>
    simp only [Broker.step]
    split_ifs with hi
    · obtain ⟨hw, hk⟩ := h.worker.dispatch hi.1
      exact h.setWorker hw hk
    · exact h
  | renew custody refreshTok accessTok accessExp nextRefresh now =>
    simp only [Broker.step]
    split_ifs with hin
    · -- what is in flight is not dead
      obtain ⟨status, hst, hne⟩ := h.worker.live custody (List.mem_append_left _ hin)
      refine h.sendCustody (fun _ => False.elim) ?_
      rintro _ rfl hd
      rw [hst, Option.some.injEq] at hd
      exact hne hd
    · exact h
  | join custody outcome now draw =>
    simp only [Broker.step]
    split_ifs with hj
    · obtain ⟨hw, hk⟩ := h.worker.join hj.1 hj.2
      exact h.setWorker hw hk
    · exact h
  | act order =>
    simp only [Broker.step]
    split
    · exact h
    · rename_i action todo ht
      have hpop : ({ s with worker := { s.worker with todo } } : Broker).Coherent :=
        h.setWorker (h.worker.pop ht) fun _ => ⟨Iff.rfl, id⟩
      cases action with
      | setCustodyStatus custody status => exact hpop.onSessions _
      | tombstoneByCustody custody now => exact hpop.onSessions _
      | persistFailure custody status now =>
        have howed := h.worker.owed custody status now (ht ▸ List.mem_cons_self ..)
        simp only [perform]
        split
        · exact hpop
        · refine hpop.sendCustody (fun c hk => ?_) ?_
          · cases status with
            | dead =>
              obtain rfl : custody = c := hk
              exact howed
            | _ => exact hk.elim
          · rintro _ ⟨rfl, hne⟩ hd
            rw [show Scheduler.statusOf _ custody = _ from howed, Option.some.injEq] at hd
            exact hne hd
  | commit count beginFails commitFails =>
    rcases commit_cases ring s count beginFails commitFails with hs | ⟨db, acks, ha, hacks, hs⟩
    · exact hs ▸ h.drop count
    · exact hs ▸ h.applied ha hacks

theorem coherent_boot (policy : SessionPolicy) (keepalive : KeepalivePolicy) {db : Db}
    (h : db.Integrity) (now : Timestamp) : (boot policy keepalive db now).Coherent where
  integrity := h
  worker := KeepaliveWorker.Idle.sane ⟨rfl, rfl, rfl⟩
  scheduled := fun custody hs => by
    obtain ⟨status, hs⟩ := Option.isSome_iff_exists.1 hs
    obtain ⟨-, c, hc, hcustody, -⟩ := statusOf_restore hs
    exact ⟨c, hc, hcustody⟩
  request := fun _ hr => absurd hr List.not_mem_nil
  requests := List.nodup_nil
  ordinary := fun _ hc => absurd hc List.not_mem_nil
  durable := fun _ hd => absurd hd List.not_mem_nil
  written := fun _ _ hl => by cases hl
  dead := by
    rintro _ ⟨_, hc, -⟩
    exact absurd hc List.not_mem_nil
  final := List.Pairwise.nil
  gone := by
    rintro _ ⟨_, hc, -⟩
    exact absurd hc List.not_mem_nil

/-- **Every run from a boot is coherent.** -/
theorem Coherent.run (ring : KeyRing) (h : s.Coherent) (ops : List BrokerOp) :
    (run (Broker.step ring) s ops).Coherent :=
  run_preserves (fun _ op h => h.step op) h ops

end Broker

end SessionBroker
