/-
  The calls of `session.rs` as tasks that run side by side.

  A call holds the lock of one entry at a time.  What it does after releasing
  it (`apply`, `persist`, `announce`, the removals at the end of `sweep`) is a
  list of actions, each atomic, between which other calls run.

  * `Task`: the actions still owed, and the stage of the call after them;
  * `Sys`: a map and the tasks on it; a schedule names the task that takes each
    step;
  * `Op.task_alone`: a task that runs without interruption does what the call
    does.
-/
import SessionBroker.Ops

namespace SessionBroker

open Relation Runs

/-! ## Actions -/

inductive Action where
  | indexInsert (hash : TokenHash) (sid : Sid)
  | indexRemove (hash : TokenHash)
  | persist (cmd : SessionCommand)
  | announce (event : SessionEvent)
deriving DecidableEq, Repr

namespace SessionMap

def act (m : SessionMap) : Action → SessionMap
  | .indexInsert hash sid => m.indexInsert hash sid
  | .indexRemove hash => m.indexRemove hash
  | .persist cmd => m.persist cmd
  | .announce event => m.announce event

end SessionMap

/-- `SessionMap::apply`, action by action. -/
def IndexEffects.actions (effects : IndexEffects) (sid : Sid) : List Action :=
  (effects.added.toList.flatMap fun g => [.indexInsert g.tokenHash sid,
    .persist (.insertGeneration sid g.genNo g.tokenHash g.createdAt g.activeUntil)]) ++
  (effects.superseded.toList.map fun p => .persist (.supersedeGeneration p.1 p.2)) ++
  effects.purged.flatMap fun hash => [.indexRemove hash, .persist (.deleteGeneration hash)]

theorem SessionMap.foldl_act_actions (m : SessionMap) (effects : IndexEffects) (sid : Sid) :
    (effects.actions sid).foldl act m = m.apply effects sid := by
  obtain ⟨added, superseded, purged⟩ := effects
  have hpurge : ∀ m : SessionMap, (purged.flatMap fun hash => [Action.indexRemove hash,
      .persist (.deleteGeneration hash)]).foldl act m =
      purged.foldl (fun m hash => (m.indexRemove hash).persist (.deleteGeneration hash)) m := by
    induction purged with
    | nil => exact fun _ => rfl
    | cons hash purged ih => exact fun m => ih _
  simp only [IndexEffects.actions, List.foldl_append, hpurge, SessionMap.apply]
  cases added <;> cases superseded <;> rfl

/-! ## Tasks -/

/-- Where a call is when it owes no action. -/
inductive Stage where
  /-- before `sid_for` -/
  | refresh (hash : TokenHash) (token : SessionToken) (now : Timestamp)
  /-- before `sessions.get_mut` -/
  | refreshEntry (sid : Sid) (hash : TokenHash) (token : SessionToken) (now : Timestamp)
  | tombstone (sids : List Sid) (reason : KillReason) (now : Timestamp)
  /-- the iteration of `tombstone_by_custody` -/
  | collect (order : List Sid) (custody : CustodyId) (sids : List Sid) (now : Timestamp)
  /-- the first loop of `sweep` -/
  | sweep (order removable : List Sid) (now : Timestamp)
  /-- its second loop -/
  | remove (removable : List Sid)
  | done
deriving DecidableEq, Repr

structure Task where
  owed : List Action
  stage : Stage
deriving DecidableEq, Repr

/-- The task of a call that was not interleaved with others when it began. -/
def Op.task : Op → Option Task
  | .refresh hash token now => some ⟨[], .refresh hash token now⟩
  | .tombstone sid reason now => some ⟨[], .tombstone [sid] reason now⟩
  | .tombstoneByCustody order custody now => some ⟨[], .collect order custody [] now⟩
  | .sweep order now => some ⟨[], .sweep order [] now⟩
  | .create .. | .setCustodyStatus .. => none

/-- What a call does under a lock, and what it owes then. -/
def Stage.step (m : SessionMap) : Stage → SessionMap × Task
  | .refresh hash token now =>
    match m.index hash with
    | none => (m, ⟨[], .done⟩)
    | some sid => (m, ⟨[], .refreshEntry sid hash token now⟩)
  | .refreshEntry sid hash token now =>
    match m.sessions sid with
    | none => (m, ⟨[], .done⟩)
    | some e =>
      match e.refresh hash token now m.policy with
      | .error _ => (m, ⟨[], .done⟩)
      | .ok (e', _, effects) =>
        (m.setEntry sid e', ⟨effects.actions sid ++
          [.persist (.updateSessionProgress sid e'.currentGen e'.idleExp)], .done⟩)
  | .tombstone [] _ _ => (m, ⟨[], .done⟩)
  | .tombstone (sid :: sids) reason now =>
    match m.sessions sid with
    | none => (m, ⟨[], .tombstone sids reason now⟩)
    | some e =>
      if e.status = .alive then
        (m.setEntry sid (e.killed now), ⟨[.persist (.tombstoneSession sid now),
          .announce (.sessionKilled sid reason)], .tombstone sids reason now⟩)
      else (m, ⟨[], .tombstone sids reason now⟩)
  | .collect [] _ sids now => (m, ⟨[], .tombstone sids .upstreamRevoked now⟩)
  | .collect (sid :: order) custody sids now =>
    if (m.sessions sid).any fun e => decide (e.custody = custody ∧ e.status = .alive) then
      (m, ⟨[], .collect order custody (sids ++ [sid]) now⟩)
    else (m, ⟨[], .collect order custody sids now⟩)
  | .sweep [] removable _ => (m, ⟨[], .remove removable⟩)
  | .sweep (sid :: order) removable now =>
    match m.sessions sid with
    | none => (m, ⟨[], .sweep order removable now⟩)
    | some e =>
      if e.collectible now m.policy then (m, ⟨[], .sweep order (removable ++ [sid]) now⟩)
      else
        let r := e.reapGenerations now m.policy
        (m.setEntry sid r.1, ⟨r.2.actions sid, .sweep order removable now⟩)
  | .remove [] => (m, ⟨[], .done⟩)
  | .remove (sid :: removable) =>
    match m.sessions sid with
    | none => (m, ⟨[], .remove removable⟩)
    | some e => (m.removeEntry sid, ⟨e.allHashes.map .indexRemove, .remove removable⟩)
  | .done => (m, ⟨[], .done⟩)

/-- One atomic step of a task. -/
def Task.step (m : SessionMap) (task : Task) : SessionMap × Task :=
  match task.owed with
  | [] => task.stage.step m
  | a :: owed => (m.act a, ⟨owed, task.stage⟩)

def Task.Finished (task : Task) : Prop := task = ⟨[], .done⟩

instance (task : Task) : Decidable task.Finished := inferInstanceAs (Decidable (_ = _))

/-! ## Interleaving -/

structure Sys where
  map : SessionMap
  tasks : List Task

namespace Sys

/-- The task at position `i` takes a step. -/
def step (s : Sys) (i : ℕ) : Sys :=
  match s.tasks[i]? with
  | none => s
  | some task =>
    let r := task.step s.map
    ⟨r.1, s.tasks.set i r.2⟩

/-- The tasks of some calls, none of which has begun. -/
def start (m : SessionMap) (ops : List Op) : Sys := ⟨m, ops.filterMap Op.task⟩

def Finished (s : Sys) : Prop := ∀ task ∈ s.tasks, task.Finished

instance (s : Sys) : Decidable s.Finished := inferInstanceAs (Decidable (∀ task ∈ s.tasks, _))

/-- One step, seen from the list of tasks. -/
theorem step_cases (s : Sys) (i : ℕ) : s.tasks[i]? = none ∧ s.step i = s ∨ ∃ pre task post,
    s.tasks[i]? = some task ∧ s.tasks = pre ++ task :: post ∧
      s.step i = ⟨(task.step s.map).1, pre ++ (task.step s.map).2 :: post⟩ := by
  unfold step
  cases h : s.tasks[i]? with
  | none => exact Or.inl ⟨rfl, rfl⟩
  | some task =>
    obtain ⟨hi, rfl⟩ := List.getElem?_eq_some_iff.1 h
    refine Or.inr ⟨s.tasks.take i, s.tasks[i], s.tasks.drop (i + 1), rfl, ?_, ?_⟩
    · simp
    · simp only [List.set_eq_take_append_cons_drop, hi, if_true]

end Sys

/-! ## Without interruption -/

/-- The task steps while no other does. -/
def Alone (p q : SessionMap × Task) : Prop := q = p.2.step p.1

theorem alone_actions (actions : List Action) (m : SessionMap) (stage : Stage) :
    ReflTransGen Alone (m, ⟨actions, stage⟩) (actions.foldl SessionMap.act m, ⟨[], stage⟩) := by
  induction actions generalizing m with
  | nil => exact .refl
  | cons a actions ih => exact .head rfl (ih (m.act a))

namespace SessionMap

theorem alone_refresh (m : SessionMap) (hash : TokenHash) (token : SessionToken)
    (now : Timestamp) : ReflTransGen Alone (m, ⟨[], .refresh hash token now⟩)
      (m.step (.refresh hash token now), ⟨[], .done⟩) := by
  unfold SessionMap.step call refresh
  cases hi : m.index hash with
  | none => exact .single (by simp [Alone, Task.step, Stage.step, hi])
  | some sid =>
    have h₁ : Alone (m, ⟨[], .refresh hash token now⟩)
        (m, ⟨[], .refreshEntry sid hash token now⟩) := by
      simp [Alone, Task.step, Stage.step, hi]
    refine .head h₁ ?_
    cases he : m.sessions sid with
    | none => exact .single (by simp [Alone, Task.step, Stage.step, hi, he])
    | some e =>
      rcases hr : e.refresh hash token now m.policy with reason | ⟨e', cookies, effects⟩
      · exact .single (by simp [Alone, Task.step, Stage.step, hi, he, hr])
      · have h₂ : Alone (m, ⟨[], .refreshEntry sid hash token now⟩)
            (m.setEntry sid e', ⟨effects.actions sid ++
              [.persist (.updateSessionProgress sid e'.currentGen e'.idleExp)], .done⟩) := by
          simp [Alone, Task.step, Stage.step, he, hr]
        have h₃ := alone_actions (effects.actions sid ++
          [.persist (.updateSessionProgress sid e'.currentGen e'.idleExp)]) (m.setEntry sid e') .done
        rw [List.foldl_append, foldl_act_actions] at h₃
        simp only [hi, he, hr]
        exact .head h₂ h₃

theorem alone_tombstone (sids : List Sid) (reason : KillReason) (now : Timestamp)
    (m : SessionMap) : ReflTransGen Alone (m, ⟨[], .tombstone sids reason now⟩)
      (sids.foldl (fun m sid => (m.tombstoneSessionWithReason sid now reason).1) m,
        ⟨[], .done⟩) := by
  induction sids generalizing m with
  | nil => exact .single rfl
  | cons sid sids ih =>
    rw [List.foldl_cons]
    have hone : ReflTransGen Alone (m, ⟨[], .tombstone (sid :: sids) reason now⟩)
        ((m.tombstoneSessionWithReason sid now reason).1, ⟨[], .tombstone sids reason now⟩) := by
      unfold tombstoneSessionWithReason
      cases he : m.sessions sid with
      | none => exact .single (by simp [Alone, Task.step, Stage.step, he])
      | some e =>
        by_cases ha : e.status = .alive
        · have h₁ : Alone (m, ⟨[], .tombstone (sid :: sids) reason now⟩)
              (m.setEntry sid (e.killed now), ⟨[.persist (.tombstoneSession sid now),
                .announce (.sessionKilled sid reason)], .tombstone sids reason now⟩) := by
            simp [Alone, Task.step, Stage.step, he, ha]
          simp only [ha, if_true]
          exact .head h₁ (alone_actions _ _ _)
        · exact .single (by simp [Alone, Task.step, Stage.step, he, ha])
    exact hone.trans (ih _)

theorem alone_collect (order : List Sid) (custody : CustodyId) (now : Timestamp) (m : SessionMap)
    (sids : List Sid) : ReflTransGen Alone (m, ⟨[], .collect order custody sids now⟩)
      (m, ⟨[], .tombstone (sids ++ m.backedBy order custody) .upstreamRevoked now⟩) := by
  induction order generalizing sids with
  | nil =>
    refine .single ?_
    simp [Alone, Task.step, Stage.step, backedBy]
  | cons sid order ih =>
    by_cases hb : (m.sessions sid).any fun e => decide (e.custody = custody ∧ e.status = .alive)
    · have h₁ : Alone (m, ⟨[], .collect (sid :: order) custody sids now⟩)
          (m, ⟨[], .collect order custody (sids ++ [sid]) now⟩) := by
        simp only [Alone, Task.step, Stage.step, hb, if_true]
      have h₂ := ih (sids ++ [sid])
      rw [List.append_assoc, List.singleton_append] at h₂
      have hcons : m.backedBy (sid :: order) custody = sid :: m.backedBy order custody :=
        List.filter_cons_of_pos hb
      rw [hcons]
      exact .head h₁ h₂
    · have h₁ : Alone (m, ⟨[], .collect (sid :: order) custody sids now⟩)
          (m, ⟨[], .collect order custody sids now⟩) := by
        simp only [Alone, Task.step, Stage.step, hb]
        rfl
      have hcons : m.backedBy (sid :: order) custody = m.backedBy order custody :=
        List.filter_cons_of_neg hb
      rw [hcons]
      exact .head h₁ (ih sids)

theorem alone_sweep (order : List Sid) (now : Timestamp) (s : SweepState) :
    ReflTransGen Alone (s.map, ⟨[], .sweep order s.removable now⟩)
      ((order.foldl (sweepVisit now) s).map,
        ⟨[], .remove (order.foldl (sweepVisit now) s).removable⟩) := by
  induction order generalizing s with
  | nil => exact .single rfl
  | cons sid order ih =>
    rw [List.foldl_cons]
    have hone : ReflTransGen Alone (s.map, ⟨[], .sweep (sid :: order) s.removable now⟩)
        ((sweepVisit now s sid).map, ⟨[], .sweep order (sweepVisit now s sid).removable now⟩) := by
      unfold sweepVisit
      cases he : s.map.sessions sid with
      | none => exact .single (by simp [Alone, Task.step, Stage.step, he])
      | some e =>
        by_cases hc : e.collectible now s.map.policy
        · exact .single (by simp [Alone, Task.step, Stage.step, he, hc])
        · have h₁ : Alone (s.map, ⟨[], .sweep (sid :: order) s.removable now⟩)
              (s.map.setEntry sid (e.reapGenerations now s.map.policy).1,
                ⟨(e.reapGenerations now s.map.policy).2.actions sid,
                  .sweep order s.removable now⟩) := by
            simp [Alone, Task.step, Stage.step, he, hc]
          have h₂ := alone_actions ((e.reapGenerations now s.map.policy).2.actions sid)
            (s.map.setEntry sid (e.reapGenerations now s.map.policy).1)
            (.sweep order s.removable now)
          rw [foldl_act_actions] at h₂
          simp only [hc]
          exact .head h₁ h₂
    exact hone.trans (ih _)

theorem alone_remove (removable : List Sid) (r : SessionMap × ℕ) :
    ReflTransGen Alone (r.1, ⟨[], .remove removable⟩)
      ((removable.foldl sweepRemove r).1, ⟨[], .done⟩) := by
  induction removable generalizing r with
  | nil => exact .single rfl
  | cons sid removable ih =>
    rw [List.foldl_cons]
    have hone : ReflTransGen Alone (r.1, ⟨[], .remove (sid :: removable)⟩)
        ((sweepRemove r sid).1, ⟨[], .remove removable⟩) := by
      unfold sweepRemove
      cases he : r.1.sessions sid with
      | none => exact .single (by simp [Alone, Task.step, Stage.step, he])
      | some e =>
        have h₁ : Alone (r.1, ⟨[], .remove (sid :: removable)⟩)
            (r.1.removeEntry sid, ⟨e.allHashes.map .indexRemove, .remove removable⟩) := by
          simp [Alone, Task.step, Stage.step, he]
        have h₂ := alone_actions (e.allHashes.map .indexRemove) (r.1.removeEntry sid)
          (.remove removable)
        rw [List.foldl_map] at h₂
        exact .head h₁ h₂
    exact hone.trans (ih _)

end SessionMap

/-- **A task that runs alone** does what the call does. -/
theorem Op.task_alone {op : Op} {task : Task} (h : op.task = some task) (m : SessionMap) :
    ReflTransGen Alone (m, task) (m.step op, ⟨[], .done⟩) := by
  cases op with
  | create => cases h
  | setCustodyStatus => cases h
  | refresh hash token now =>
    cases h
    exact m.alone_refresh hash token now
  | tombstone sid reason now =>
    cases h
    exact SessionMap.alone_tombstone [sid] reason now m
  | tombstoneByCustody order custody now =>
    cases h
    have hfold : ∀ (sids : List Sid) (r : SessionMap × ℕ), (sids.foldl (fun r sid =>
        let killed := r.1.tombstoneSessionWithReason sid now .upstreamRevoked
        (killed.1, if killed.2 then r.2 + 1 else r.2)) r).1 =
        sids.foldl (fun m sid => (m.tombstoneSessionWithReason sid now .upstreamRevoked).1) r.1 := by
      intro sids
      induction sids with
      | nil => exact fun _ => rfl
      | cons sid sids ih => exact fun r => ih _
    have h₂ := SessionMap.alone_tombstone (m.backedBy order custody) .upstreamRevoked now m
    rw [← hfold _ (m, 0)] at h₂
    exact (m.alone_collect order custody now []).trans h₂
  | sweep order now =>
    cases h
    exact (SessionMap.alone_sweep order now ⟨m, 0, []⟩).trans (SessionMap.alone_remove _ (_, 0))

end SessionBroker
