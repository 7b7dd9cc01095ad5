/-
  What `take_due` returns over the runs of a scheduler (`keepalive.rs`),
  whatever stale entries its heap holds.

  * `SchedulerOp`: what is done to a scheduler.  `record_cases` and
    `record_entry` say what an outcome does to an entry;
  * `Held`: in flight, dead or gone.  What is held stays held until it is
    recorded or registered again (`Held.run`), and is never returned;
  * `takeDue_safe` says what that means for a run.
-/
import SessionBroker.Scheduler
import SessionBroker.Lib.Run

namespace SessionBroker

open Runs

namespace Scheduler

section
variable {now : Timestamp} {entries : CustodyId → Option CustodyState} {custody : CustodyId}
  {s : Scheduler}

theorem put_entries (s : Scheduler) (custody : CustodyId) (st : CustodyState) (c : CustodyId) :
    (s.put custody st).entries c = if c = custody then some st else s.entries c := by
  simp only [put, Function.update_apply]

/-- **What an outcome does**: nothing to a custody that is gone, else a place in
    the heap, or death. -/
theorem record_cases (s : Scheduler) (custody : CustodyId) (outcome : RefreshOutcome)
    (now : Timestamp) (draw : Draw) :
    s.entries custody = none ∧ (s.record custody outcome now draw).1 = s ∨
    ∃ st : CustodyState, st.refreshing = false ∧
      ((s.record custody outcome now draw).1 = s.put custody st ∨
        st.status = .dead ∧ (s.record custody outcome now draw).1 =
          { s with entries := Function.update s.entries custody (some st) }) := by
  unfold record
  cases s.entries custody with
  | none => exact Or.inl ⟨rfl, rfl⟩
  | some state =>
    refine Or.inr ?_
    cases outcome with
    | success lifetimeSecs rotatedRefresh => exact ⟨_, rfl, Or.inl rfl⟩
    | transient retryAfterSecs => exact ⟨_, rfl, Or.inl rfl⟩
    | permanent => exact ⟨_, rfl, Or.inr ⟨rfl, rfl⟩⟩

/-- The entry after an outcome, whose status is what `record` returns. -/
theorem record_entry {st : CustodyState} (h : s.entries custody = some st) (outcome : RefreshOutcome)
    (now : Timestamp) (draw : Draw) :
    ∃ st', (s.record custody outcome now draw).1.entries custody = some st' ∧
      (s.record custody outcome now draw).2 = some st'.status := by
  rw [record, h]
  cases outcome with
  | success lifetimeSecs rotatedRefresh => exact ⟨_, (put_entries ..).trans (if_pos rfl), rfl⟩
  | transient retryAfterSecs => exact ⟨_, (put_entries ..).trans (if_pos rfl), rfl⟩
  | permanent => exact ⟨_, Function.update_self .., rfl⟩

/-- An outcome moves the entry of its own custody only. -/
theorem record_entries_of_ne {outcome : RefreshOutcome} {draw : Draw} {c : CustodyId}
    (h : c ≠ custody) : (s.record custody outcome now draw).1.entries c = s.entries c := by
  rcases record_cases s custody outcome now draw with ⟨-, hs⟩ | ⟨st, -, hs | ⟨-, hs⟩⟩
  · rw [hs]
  · rw [hs, put_entries, if_neg h]
  · rw [hs]
    exact Function.update_of_ne h _ _

end

/-- `Scheduler::remove`: the heap keeps a stale entry. -/
def remove (s : Scheduler) (custody : CustodyId) : Scheduler :=
  { s with entries := Function.update s.entries custody none }

end Scheduler

/-! ## Runs -/

inductive SchedulerOp where
  | insert (custody : CustodyId) (issuedAt : Timestamp) (lifetimeSecs : ℕ) (draw : Draw)
  | insertRestored (custody : CustodyId) (status : CustodyStatus) (accessExp nextRefresh : Timestamp)
  | remove (custody : CustodyId)
  | takeDue (now : Timestamp)
  | record (custody : CustodyId) (outcome : RefreshOutcome) (now : Timestamp) (draw : Draw)

namespace SchedulerOp

/-- The custody an operation registers. -/
def registers : SchedulerOp → Option CustodyId
  | insert custody .. | insertRestored custody .. => some custody
  | _ => none

/-- An outcome of the custody. -/
def Records (custody : CustodyId) : SchedulerOp → Prop
  | record c .. => c = custody
  | _ => False

end SchedulerOp

namespace Scheduler

def step (s : Scheduler) : SchedulerOp → Scheduler
  | .insert custody issuedAt lifetimeSecs draw => s.insert custody issuedAt lifetimeSecs draw
  | .insertRestored custody status accessExp nextRefresh =>
    s.insertRestored custody status accessExp nextRefresh
  | .remove custody => s.remove custody
  | .takeDue now => (s.takeDue now).1
  | .record custody outcome now draw => (s.record custody outcome now draw).1

/-- The scheduler after a run from its start. -/
def after (policy : KeepalivePolicy) (ops : List SchedulerOp) : Scheduler := run step (new policy) ops

/-- In flight, dead, or not there. -/
def Held (s : Scheduler) (custody : CustodyId) : Prop :=
  ∀ st, s.entries custody = some st → st.refreshing = true ∨ st.status = .dead

section
variable {s : Scheduler} {custody : CustodyId} {now : Timestamp} {op : SchedulerOp}

theorem Held.not_taken (h : s.Held custody) : custody ∉ (s.takeDue now).2 := by
  intro hc
  obtain ⟨st, hst, -, hfree, hlive⟩ := ripe_of_mem_takeDue hc
  rcases h st hst with hr | hd
  · rw [hfree] at hr
    cases hr
  · exact hlive hd

/-- What a tick takes is in flight. -/
theorem held_takeDue (h : custody ∈ (s.takeDue now).2) : (s.takeDue now).1.Held custody := by
  intro st hst
  rw [takeDue_entries, mark, if_pos h] at hst
  obtain ⟨st₀, -, rfl⟩ := Option.map_eq_some_iff.1 hst
  exact Or.inl rfl

theorem held_permanent (s : Scheduler) (custody : CustodyId) (now : Timestamp) (draw : Draw) :
    (s.record custody .permanent now draw).1.Held custody := by
  intro st hst
  unfold record at hst
  split at hst
  · rename_i he
    rw [he] at hst
    cases hst
  · dsimp only at hst
    rw [Function.update_self] at hst
    cases hst
    exact Or.inr rfl

/-- **Only an outcome or a registration of its own lets a custody go.** -/
theorem Held.step (h : s.Held custody) (hr : op.registers ≠ some custody)
    (ho : ¬ op.Records custody) : (s.step op).Held custody := by
  have hput : ∀ (c : CustodyId) st, c ≠ custody → (s.put c st).Held custody := by
    intro c st hne st' hst
    rw [put_entries, if_neg (Ne.symm hne)] at hst
    exact h st' hst
  cases op with
  | insert c issuedAt lifetimeSecs draw => exact hput c _ fun hc => hr (congrArg some hc)
  | insertRestored c status accessExp nextRefresh =>
    exact hput c _ fun hc => hr (congrArg some hc)
  | remove c =>
    intro st hst
    simp only [Scheduler.step, remove, Function.update_apply] at hst
    split_ifs at hst
    exact h st hst
  | takeDue now =>
    intro st hst
    rw [show s.step (.takeDue now) = (s.takeDue now).1 from rfl, takeDue_entries, mark,
      if_neg h.not_taken] at hst
    exact h st hst
  | record c outcome now draw =>
    intro st hst
    rw [show s.step (.record c outcome now draw) = (s.record c outcome now draw).1 from rfl,
      record_entries_of_ne (Ne.symm ho)] at hst
    exact h st hst

theorem Held.run {ops : List SchedulerOp} (h : s.Held custody)
    (hr : custody ∉ ops.filterMap SchedulerOp.registers) (ho : ∀ op ∈ ops, ¬ op.Records custody) :
    (run Scheduler.step s ops).Held custody := by
  induction ops generalizing s with
  | nil => exact h
  | cons op ops ih =>
    have hstep : (s.step op).Held custody := by
      refine h.step (fun hc => hr ?_) (ho op (List.mem_cons_self ..))
      exact List.mem_filterMap.2 ⟨op, List.mem_cons_self .., hc⟩
    refine ih hstep (fun hc => hr ?_) fun op' hop' => ho op' (List.mem_cons_of_mem _ hop')
    obtain ⟨op', hop', hc⟩ := List.mem_filterMap.1 hc
    exact List.mem_filterMap.2 ⟨op', List.mem_cons_of_mem _ hop', hc⟩

theorem step_entries_none (h : s.entries custody = none) (hr : op.registers ≠ some custody) :
    (s.step op).entries custody = none := by
  have hput : ∀ (c : CustodyId) st, some c ≠ some custody → (s.put c st).entries custody = none := by
    intro c st hne
    rw [put_entries, if_neg fun hc => hne (congrArg some hc.symm), h]
  cases op with
  | insert c issuedAt lifetimeSecs draw => exact hput c _ hr
  | insertRestored c status accessExp nextRefresh => exact hput c _ hr
  | remove c =>
    simp only [Scheduler.step, remove, Function.update_apply, h, ite_self]
  | takeDue now =>
    show (s.takeDue now).1.entries custody = none
    rw [takeDue_entries, mark, h, Option.map_none, ite_self]
  | record c outcome now draw =>
    show (s.record c outcome now draw).1.entries custody = none
    by_cases hc : custody = c
    · subst hc
      rw [record, h]
      exact h
    · rw [record_entries_of_ne hc, h]

variable {policy : KeepalivePolicy} {ops : List SchedulerOp}

/-- What is scheduled was registered. -/
theorem registered (h : (after policy ops).entries custody ≠ none) :
    custody ∈ ops.filterMap SchedulerOp.registers := by
  induction ops using List.reverseRecOn with
  | nil => exact absurd rfl h
  | append_singleton ops op ih =>
    rw [List.filterMap_append, List.mem_append]
    by_contra hno
    rw [not_or] at hno
    refine h ?_
    rw [after, run_concat]
    refine step_entries_none ?_ fun hr => hno.2 (List.mem_filterMap.2 ⟨op, by simp, hr⟩)
    by_contra hsome
    exact hno.1 (ih hsome)

theorem after_append (ops ops' : List SchedulerOp) :
    after policy (ops ++ ops') = run step (after policy ops) ops' := run_append ops ops'

end

/-! ## Safety -/

/-- What `take_due` returns at `now` after a run. -/
def taken (policy : KeepalivePolicy) (ops : List SchedulerOp) (now : Timestamp) : List CustodyId :=
  ((after policy ops).takeDue now).2

/-- Returned by `take_due`, with no outcome since. -/
def InFlight (policy : KeepalivePolicy) (ops : List SchedulerOp) (custody : CustodyId) : Prop :=
  ∃ before now later, ops = before ++ .takeDue now :: later ∧ custody ∈ taken policy before now ∧
    ∀ op ∈ later, ¬ op.Records custody

/-- Outcomes are of custodies in flight, as the worker's are. -/
def Answered (policy : KeepalivePolicy) (ops : List SchedulerOp) : Prop :=
  ∀ before custody outcome now draw later,
    ops = before ++ .record custody outcome now draw :: later → InFlight policy before custody

section
variable {policy : KeepalivePolicy} {custody : CustodyId} {now : Timestamp}

theorem registered_of_taken {ops : List SchedulerOp} (h : custody ∈ taken policy ops now) :
    custody ∈ ops.filterMap SchedulerOp.registers := by
  obtain ⟨st, hst, -⟩ := ripe_of_mem_takeDue h
  exact registered (by rw [hst]; exact Option.some_ne_none st)

theorem held_after_taken {before : List SchedulerOp} (h : custody ∈ taken policy before now) :
    (after policy (before ++ [.takeDue now])).Held custody := by
  rw [after, run_concat]
  exact held_takeDue h

theorem held_after_permanent (policy : KeepalivePolicy) (before : List SchedulerOp)
    (custody : CustodyId) (now : Timestamp) (draw : Draw) :
    (after policy (before ++ [.record custody .permanent now draw])).Held custody := by
  rw [after, run_concat]
  exact held_permanent _ custody now draw

/-- **What is held is not returned** until an outcome of it. -/
theorem not_taken_of_held {before later : List SchedulerOp} {op : SchedulerOp}
    (hops : ((before ++ op :: later).filterMap SchedulerOp.registers).Nodup)
    (hreg : custody ∈ before.filterMap SchedulerOp.registers)
    (hheld : (after policy (before ++ [op])).Held custody)
    (ho : ∀ op ∈ later, ¬ op.Records custody) : custody ∉ taken policy (before ++ op :: later) now := by
  have hsplit : before ++ op :: later = before ++ [op] ++ later := by simp
  rw [hsplit, List.filterMap_append, List.nodup_append] at hops
  have hrun : (after policy (before ++ op :: later)).Held custody := by
    rw [hsplit, after_append]
    refine hheld.run (fun hc => hops.2.2 custody ?_ custody hc rfl) ho
    rw [List.filterMap_append]
    exact List.mem_append_left _ hreg
  exact hrun.not_taken

/-- Where outcomes are of custodies in flight, a `Permanent` is the last one. -/
theorem Answered.last {before later : List SchedulerOp} {t : Timestamp} {draw : Draw}
    (h : Answered policy (before ++ .record custody .permanent t draw :: later))
    (hops : ((before ++ .record custody .permanent t draw :: later).filterMap
      SchedulerOp.registers).Nodup)
    (hreg : custody ∈ before.filterMap SchedulerOp.registers) :
    ∀ op ∈ later, ¬ op.Records custody := by
  induction later using List.reverseRecOn with
  | nil => simp
  | append_singleton later op ih =>
    have hsplit : before ++ .record custody .permanent t draw :: (later ++ [op]) =
        (before ++ .record custody .permanent t draw :: later) ++ [op] := by simp
    rw [hsplit] at h hops
    have hprefix : Answered policy (before ++ .record custody .permanent t draw :: later) := by
      intro b c outcome now draw' l hb
      exact h b c outcome now draw' (l ++ [op]) (by rw [hb]; simp)
    rw [List.filterMap_append, List.nodup_append] at hops
    have hno := ih hprefix hops.1
    intro op' hop' hrec
    rcases List.mem_append.1 hop' with hop' | hop'
    · exact hno op' hop' hrec
    rw [List.mem_singleton.1 hop'] at hrec
    cases op with
    | record c outcome now draw' =>
      obtain rfl : c = custody := hrec
      obtain ⟨b, u, l, hb, htaken, hnone⟩ := h _ c outcome now draw' [] rfl
      -- the dispatch that is answered comes after the `Permanent`
      rcases List.append_eq_append_iff.1 hb with ⟨as, rfl, has⟩ | ⟨bs, -, hbs⟩
      · cases as with
        | nil => cases has
        | cons _ as =>
          obtain ⟨rfl, hlater⟩ := List.cons_eq_cons.1 has
          replace hlater : later = as ++ .takeDue u :: l := hlater
          subst hlater
          refine not_taken_of_held ?_ hreg (held_after_permanent policy before c t draw)
            (fun op hop => hno op (List.mem_append_left _ hop)) htaken
          have hfirst := hops.1
          rw [← List.cons_append, ← List.append_assoc, List.filterMap_append,
            List.nodup_append] at hfirst
          exact hfirst.1
      · cases bs with
        | nil => cases hbs
        | cons _ bs =>
          obtain ⟨-, rfl⟩ := List.cons_eq_cons.1 hbs
          exact hnone (.record c .permanent t draw) (by simp) rfl
    | _ => exact hrec.elim

/-- **Scheduler safety.**  After a run that registers each custody once,
    `take_due` returns each custody once and only when it is due; one it had
    returned before, or whose last outcome was `Permanent`, only with an outcome
    recorded in between; and, where outcomes are of custodies in flight, none
    with a `Permanent` on record. -/
theorem takeDue_safe (policy : KeepalivePolicy) (ops : List SchedulerOp)
    (hops : (ops.filterMap SchedulerOp.registers).Nodup) (now : Timestamp) :
    (taken policy ops now).Nodup ∧ ∀ custody ∈ taken policy ops now,
      (∃ st, (after policy ops).entries custody = some st ∧ st.nextRefresh ≤ now) ∧
      (∀ before t later, ops = before ++ .takeDue t :: later → custody ∈ taken policy before t →
        ∃ op ∈ later, op.Records custody) ∧
      (∀ before t draw later, ops = before ++ .record custody .permanent t draw :: later →
        (after policy before).entries custody ≠ none → ∃ op ∈ later, op.Records custody) ∧
      (Answered policy ops → ∀ t draw, .record custody .permanent t draw ∉ ops) := by
  obtain ⟨-, -, -, -, hnodup, -, -⟩ := takeDue_takes (after policy ops) now
  refine ⟨hnodup, fun custody hc => ⟨?_, ?_, ?_, ?_⟩⟩
  · obtain ⟨st, hst, hdue, -⟩ := ripe_of_mem_takeDue hc
    exact ⟨st, hst, hdue⟩
  · rintro before t later rfl htaken
    by_contra hno
    refine not_taken_of_held hops (registered_of_taken htaken) (held_after_taken htaken) ?_ hc
    exact fun op hop hr => hno ⟨op, hop, hr⟩
  · rintro before t draw later rfl hthere
    by_contra hno
    refine not_taken_of_held hops (registered hthere)
      (held_after_permanent policy before custody t draw) ?_ hc
    exact fun op hop hr => hno ⟨op, hop, hr⟩
  · intro hanswered t draw hm
    obtain ⟨before, later, rfl⟩ := List.append_of_mem hm
    obtain ⟨b, u, l, hb, htaken, -⟩ := hanswered before custody .permanent t draw later rfl
    have hreg : custody ∈ before.filterMap SchedulerOp.registers := by
      rw [hb, List.filterMap_append]
      exact List.mem_append_left _ (registered_of_taken htaken)
    exact not_taken_of_held hops hreg (held_after_permanent policy before custody t draw)
      (hanswered.last hops hreg) hc

/-- An outcome nobody waits for brings a dead custody back. -/
theorem permanent_not_final :
    let ops : List SchedulerOp := [.insert ⟨"c"⟩ ⟨0⟩ 1 ⟨id, id⟩, .record ⟨"c"⟩ .permanent ⟨0⟩ ⟨id, id⟩,
      .record ⟨"c"⟩ (.success 1 false) ⟨0⟩ ⟨id, id⟩]
    (ops.filterMap SchedulerOp.registers).Nodup ∧
      (after {} (ops.take 1)).entries ⟨"c"⟩ ≠ none ∧ ⟨"c"⟩ ∈ taken {} ops ⟨1⟩ := by
  decide

/-- At a concrete run: renewed at one, returned again at two. -/
theorem takeDue_safe_renewed :
    let renewal : List SchedulerOp := [.record ⟨"c"⟩ (.success 1 false) ⟨1⟩ ⟨id, id⟩]
    let ops := [.insert ⟨"c"⟩ ⟨0⟩ 1 ⟨id, id⟩, .takeDue ⟨1⟩] ++ renewal
    taken {} ops ⟨2⟩ = [⟨"c"⟩] ∧ ∃ op ∈ renewal, op.Records ⟨"c"⟩ := by
  intro renewal ops
  have hsafe := takeDue_safe {} ops (by decide) ⟨2⟩
  have htaken : ⟨"c"⟩ ∈ taken {} ops ⟨2⟩ := by decide
  constructor
  · decide
  · exact (hsafe.2 ⟨"c"⟩ htaken).2.1 [.insert ⟨"c"⟩ ⟨0⟩ 1 ⟨id, id⟩] ⟨1⟩ renewal rfl (by decide)

end

end Scheduler

end SessionBroker
