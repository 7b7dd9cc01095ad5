/-
  Runs of the keepalive worker (`KeepaliveWorker::tick` in `keepalive.rs`).

  * a step registers a custody between two ticks, or takes a tick further: what
    is due is taken, goes out a chunk at a time, and comes back one refresh at
    a time, with an outcome or by a panic;
  * `Tracked`: every live custody is in the heap at its time, or in the hands
    of the tick.  Every step but a panic keeps it (`Tracked.step`);
  * `every_custody_renewed`: so long as no refresh panics, no custody is lost.
-/
import SessionBroker.Due
import SessionBroker.Grants

namespace SessionBroker

open Runs

/-! ## The order of the heap -/

instance : IsTrans DueEntry DueEntry.Le where
  trans a b c h h' := by
    unfold DueEntry.Le at h h' ⊢
    rcases h with h | ⟨h, hid⟩
    · exact Or.inl (by omega)
    · rcases h' with h' | ⟨h', hid'⟩
      · exact Or.inl (by omega)
      · exact Or.inr ⟨h.trans h', String.le_trans hid hid'⟩

instance : Std.Total DueEntry.Le where
  total a b := by
    unfold DueEntry.Le
    rcases lt_trichotomy a.1 b.1 with h | h | h
    · exact Or.inl (Or.inl h)
    · rcases String.le_total a.2.id b.2.id with hid | hid
      · exact Or.inl (Or.inr ⟨h, hid⟩)
      · exact Or.inr (Or.inr ⟨h.symm, hid⟩)
    · exact Or.inr (Or.inl h)

namespace Scheduler

variable {s : Scheduler} {custody : CustodyId} {now : Timestamp}

theorem put_due_sorted (h : s.due.Pairwise DueEntry.Le) (st : CustodyState) :
    (s.put custody st).due.Pairwise DueEntry.Le :=
  h.orderedInsert _ _

theorem mem_put_due {st : CustodyState} {entry : DueEntry} :
    entry ∈ (s.put custody st).due ↔ entry = (st.nextRefresh.secs, custody) ∨ entry ∈ s.due :=
  List.mem_orderedInsert _

/-- **On a sorted heap `take_due` misses nothing**: an entry stays, later than
    `now`, or what it names is taken if it is ripe. -/
theorem takeDue_sorted (h : s.due.Pairwise DueEntry.Le) (now : Timestamp) :
    (s.takeDue now).1.due.Pairwise DueEntry.Le ∧
    ∀ entry ∈ s.due, entry ∈ (s.takeDue now).1.due ∧ now.secs < entry.1 ∨
      entry.1 ≤ now.secs ∧ (Ripe now s.entries entry.2 → entry.2 ∈ (s.takeDue now).2) := by
  obtain ⟨popped, hdue, hearly, hlate, -, hmem, -⟩ := takeDue_takes s now
  rw [hdue, List.pairwise_append] at h
  refine ⟨h.2.1, fun entry he => ?_⟩
  rw [hdue, List.mem_append] at he
  rcases he with he | he
  · exact Or.inr ⟨hearly entry he, fun hr => (hmem entry.2).2 ⟨hr, List.mem_map_of_mem he⟩⟩
  · refine Or.inl ⟨he, ?_⟩
    cases hrest : (s.takeDue now).1.due with
    | nil =>
      rw [hrest] at he
      cases he
    | cons first rest =>
      rw [hrest] at he hlate h
      have hfirst : now.secs < first.1 := hlate first rfl
      rcases List.mem_cons.1 he with rfl | he
      · exact hfirst
      · rcases (List.pairwise_cons.1 h.2.1).1 entry he with hlt | ⟨heq, -⟩
        · omega
        · omega

end Scheduler

/-! ## Worker runs -/

inductive WorkerOp where
  | insert (custody : CustodyId) (issuedAt : Timestamp) (lifetimeSecs : ℕ) (draw : Draw)
  | insertRestored (custody : CustodyId) (status : CustodyStatus) (accessExp nextRefresh : Timestamp)
  | tick (now : Timestamp)
  /-- The next chunk goes out. -/
  | dispatch
  /-- A refresh in flight comes back; `none` is a panic. -/
  | join (custody : CustodyId) (outcome : Option RefreshOutcome) (now : Timestamp) (draw : Draw)
  /-- The next effect of an outcome. -/
  | act

/-- A refresh task panics. -/
def WorkerOp.Panics : WorkerOp → Prop
  | join _ none _ _ => True
  | _ => False

namespace KeepaliveWorker

def start (policy : KeepalivePolicy) : KeepaliveWorker := ⟨.new policy, [], [], []⟩

/-- One step; a step that cannot be taken leaves the worker alone. -/
def step (w : KeepaliveWorker) : WorkerOp → KeepaliveWorker
  | .insert custody issuedAt lifetimeSecs draw =>
    if w.Idle then
      { w with scheduler := w.scheduler.insert custody issuedAt lifetimeSecs draw }
    else w
  | .insertRestored custody status accessExp nextRefresh =>
    if w.Idle then
      { w with scheduler := w.scheduler.insertRestored custody status accessExp nextRefresh }
    else w
  | .tick now => if w.Idle then w.tick now else w
  | .dispatch => if w.inflight = [] ∧ w.todo = [] then w.dispatch else w
  | .join custody outcome now draw =>
    if custody ∈ w.inflight ∧ w.todo = [] then w.join custody outcome now draw else w
  | .act => { w with todo := w.todo.tail }

/-- What the tick has taken and not brought back. -/
def working (w : KeepaliveWorker) : List CustodyId := w.inflight ++ w.chunks.flatten

/-- Where a live custody is. -/
structure Tracked (w : KeepaliveWorker) : Prop where
  sorted : w.scheduler.due.Pairwise DueEntry.Le
  live : ∀ c st, w.scheduler.entries c = some st → st.status ≠ .dead →
    st.refreshing = false ∧ (st.nextRefresh.secs, c) ∈ w.scheduler.due ∨
      st.refreshing = true ∧ c ∈ w.working

variable {w : KeepaliveWorker} {custody : CustodyId} {now : Timestamp}

theorem Idle.working (h : w.Idle) : w.working = [] := by
  simp only [KeepaliveWorker.working, h.1, h.2.1, List.flatten_nil, List.append_nil]

/-- A registration, or an outcome with a renewal to come. -/
theorem Tracked.put (h : w.Tracked) {work : List CustodyId} (hw : ∀ c ∈ w.working, c ∉ work → c = custody)
    {st : CustodyState} (hst : st.refreshing = false) {w' : KeepaliveWorker}
    (hs : w'.scheduler = w.scheduler.put custody st) (hwork : w'.working = work) : w'.Tracked where
  sorted := hs ▸ Scheduler.put_due_sorted h.sorted st
  live := by
    intro c st' he hlive
    rw [hs, Scheduler.put_entries] at he
    rw [hs, hwork, Scheduler.mem_put_due]
    split_ifs at he with hc
    · cases he
      exact Or.inl ⟨hst, Or.inl (by rw [hc])⟩
    · rcases h.live c st' he hlive with ⟨hr, hm⟩ | ⟨hr, hm⟩
      · exact Or.inl ⟨hr, Or.inr hm⟩
      · exact Or.inr ⟨hr, by_contra fun hno => hc (hw c hm hno)⟩

/-- **What a tick takes is in its hands**, and the rest stays in the heap. -/
theorem Tracked.tick (h : w.Tracked) (hi : w.Idle) (now : Timestamp) : (w.tick now).Tracked := by
  obtain ⟨hsorted, hstays⟩ := Scheduler.takeDue_sorted h.sorted now
  refine ⟨hsorted, fun c st he hlive => ?_⟩
  have hwork : (w.tick now).working = (w.scheduler.takeDue now).2 := by
    simp only [KeepaliveWorker.working, KeepaliveWorker.tick, hi.2.1, List.nil_append,
      flatten_toChunks]
  rw [hwork]
  replace he : Scheduler.mark (w.scheduler.takeDue now).2 w.scheduler.entries c = some st := by
    rw [← Scheduler.takeDue_entries]
    exact he
  rw [Scheduler.mark] at he
  split_ifs at he with hc
  · obtain ⟨st₀, -, rfl⟩ := Option.map_eq_some_iff.1 he
    exact Or.inr ⟨rfl, hc⟩
  · rcases h.live c st he hlive with ⟨hr, hm⟩ | ⟨-, hm⟩
    · rcases hstays _ hm with ⟨hm, -⟩ | ⟨hdue, htaken⟩
      · exact Or.inl ⟨hr, hm⟩
      · exact absurd (htaken ⟨st, he, hdue, hr, hlive⟩) hc
    · rw [hi.working] at hm
      cases hm

/-- Nothing registered, nothing taken. -/
theorem Tracked.of_live (h : w.Tracked) {w' : KeepaliveWorker}
    (hdue : w'.scheduler.due = w.scheduler.due)
    (hlive : ∀ c st, w'.scheduler.entries c = some st → st.status ≠ .dead →
      w.scheduler.entries c = some st ∧ (c ∈ w.working → c ∈ w'.working)) : w'.Tracked where
  sorted := hdue ▸ h.sorted
  live := by
    intro c st he hst
    obtain ⟨he', hw⟩ := hlive c st he hst
    rw [hdue]
    exact (h.live c st he' hst).imp_right fun hm => ⟨hm.1, hw hm.2⟩

/-- An outcome puts its custody back into the heap, or leaves it dead. -/
theorem Tracked.join (h : w.Tracked) (custody : CustodyId) (outcome : RefreshOutcome)
    (now : Timestamp) (draw : Draw) : (w.join custody (some outcome) now draw).Tracked := by
  have hback : ∀ c ∈ w.working, c ∉ (w.join custody (some outcome) now draw).working → c = custody := by
    intro c hc hno
    by_contra hne
    rw [KeepaliveWorker.working, List.mem_append, not_or] at hno
    rcases List.mem_append.1 hc with hc | hc
    · exact hno.1 ((List.mem_erase_of_ne hne).2 hc)
    · exact hno.2 hc
  have hscheduler : (w.join custody (some outcome) now draw).scheduler =
      (w.scheduler.record custody outcome now draw).1 := rfl
  rcases Scheduler.record_cases w.scheduler custody outcome now draw with
    ⟨hnone, hs⟩ | ⟨st, hst, hs | ⟨hdead, hs⟩⟩
  · rw [hs] at hscheduler
    refine h.of_live (by rw [hscheduler]) fun c st he _ => ?_
    rw [hscheduler] at he
    refine ⟨he, fun hc => by_contra fun hno => ?_⟩
    rw [hback c hc hno, hnone] at he
    cases he
  · exact h.put hback hst (hscheduler.trans hs) rfl
  · rw [hs] at hscheduler
    refine h.of_live (by rw [hscheduler]) fun c st' he hlive => ?_
    rw [hscheduler] at he
    simp only [Function.update_apply] at he
    split_ifs at he with hc
    · cases he
      exact absurd hdead hlive
    · exact ⟨he, fun hm => by_contra fun hno => hc (hback c hm hno)⟩

/-- **Every step but a panic keeps track of every custody.** -/
theorem Tracked.step {op : WorkerOp} (h : w.Tracked) (hop : ¬ op.Panics) : (w.step op).Tracked := by
  cases op with
  | insert c issuedAt lifetimeSecs draw =>
    simp only [KeepaliveWorker.step]
    split_ifs
    · exact h.put (fun c hc hno => absurd hc hno) rfl rfl rfl
    · exact h
  | insertRestored c status accessExp nextRefresh =>
    simp only [KeepaliveWorker.step]
    split_ifs
    · exact h.put (fun c hc hno => absurd hc hno) rfl rfl rfl
    · exact h
  | tick now =>
    simp only [KeepaliveWorker.step]
    split_ifs with hi
    · exact h.tick hi now
    · exact h
  | dispatch =>
    simp only [KeepaliveWorker.step]
    split_ifs with hi
    · unfold KeepaliveWorker.dispatch
      split
      · exact h
      · rename_i chunk chunks hc
        refine h.of_live rfl fun c st he _ => ⟨he, fun hm => ?_⟩
        simpa [KeepaliveWorker.working, hi.1, hc] using hm
    · exact h
  | join c outcome now draw =>
    simp only [KeepaliveWorker.step]
    split_ifs
    · cases outcome with
      | none => exact absurd trivial hop
      | some outcome => exact h.join c outcome now draw
    · exact h
  | act => exact h.of_live rfl fun c st he _ => ⟨he, id⟩

theorem tracked_start (policy : KeepalivePolicy) : (start policy).Tracked where
  sorted := List.Pairwise.nil
  live := fun c st he => by cases he

theorem Tracked.run {ops : List WorkerOp} (h : w.Tracked) (hops : ∀ op ∈ ops, ¬ op.Panics) :
    (run KeepaliveWorker.step w ops).Tracked := by
  induction ops generalizing w with
  | nil => exact h
  | cons op ops ih =>
    exact ih (h.step (hops op (List.mem_cons_self ..))) fun op' hop' =>
      hops op' (List.mem_cons_of_mem _ hop')

/-- What waits to go out goes out before the tick is over. -/
theorem dispatched {ops : List WorkerOp} (hc : custody ∈ w.working)
    (hi : (run KeepaliveWorker.step w ops).Idle) :
    ∃ before later, ops = before ++ later ∧
      custody ∈ (run KeepaliveWorker.step w before).inflight := by
  induction ops generalizing w with
  | nil =>
    rw [run_nil] at hi
    rw [hi.working] at hc
    cases hc
  | cons op ops ih =>
    by_cases hin : custody ∈ w.inflight
    · exact ⟨[], op :: ops, rfl, hin⟩
    have hchunk : custody ∈ w.chunks.flatten := (List.mem_append.1 hc).resolve_left hin
    have hbusy : ¬ w.Idle := by
      intro hidle
      rw [hidle.working] at hc
      cases hc
    have hstep : custody ∈ (w.step op).working := by
      cases op with
      | insert c issuedAt lifetimeSecs draw => rwa [KeepaliveWorker.step, if_neg hbusy]
      | insertRestored c status accessExp nextRefresh => rwa [KeepaliveWorker.step, if_neg hbusy]
      | tick now => rwa [KeepaliveWorker.step, if_neg hbusy]
      | dispatch =>
        simp only [KeepaliveWorker.step]
        split_ifs with hfree
        · unfold KeepaliveWorker.dispatch
          split
          · exact hc
          · rename_i chunk chunks hchunks
            simpa [KeepaliveWorker.working, hfree.1, hchunks] using hc
        · exact hc
      | join c outcome now draw =>
        simp only [KeepaliveWorker.step]
        split_ifs
        · cases outcome <;> exact List.mem_append_right _ hchunk
        · exact hc
      | act => exact hc
    obtain ⟨before, later, rfl, hm⟩ := ih hstep hi
    exact ⟨op :: before, later, rfl, hm⟩

/-- **Scheduler completeness.**  In every run in which no refresh panics,
    between two ticks every custody that is not dead is in the heap at its time
    and not in flight, and a tick at or after that time sends its refresh out
    before it is over. -/
theorem every_custody_renewed (policy : KeepalivePolicy) (ops : List WorkerOp)
    (hops : ∀ op ∈ ops, ¬ op.Panics) :
    let w := run KeepaliveWorker.step (start policy) ops
    w.Idle → ∀ custody st, w.scheduler.entries custody = some st → st.status ≠ .dead →
      st.refreshing = false ∧ (st.nextRefresh.secs, custody) ∈ w.scheduler.due ∧
      ∀ now ops', st.nextRefresh ≤ now → (run KeepaliveWorker.step (w.tick now) ops').Idle →
        ∃ before later, ops' = before ++ later ∧
          custody ∈ (run KeepaliveWorker.step (w.tick now) before).inflight := by
  intro w hi custody st he hlive
  have htracked : w.Tracked := (tracked_start policy).run hops
  obtain ⟨hr, hm⟩ : st.refreshing = false ∧ (st.nextRefresh.secs, custody) ∈ w.scheduler.due := by
    refine (htracked.live custody st he hlive).resolve_right fun hwork => ?_
    rw [hi.working] at hwork
    cases hwork.2
  refine ⟨hr, hm, fun now ops' hdue hidle => dispatched ?_ hidle⟩
  have htaken : custody ∈ (w.scheduler.takeDue now).2 := by
    rcases (Scheduler.takeDue_sorted htracked.sorted now).2 _ hm with ⟨-, hlate⟩ | ⟨-, htaken⟩
    · exact absurd hdue (not_le.2 hlate)
    · exact htaken ⟨st, he, hdue, hr, hlive⟩
  simpa [KeepaliveWorker.working, KeepaliveWorker.tick, hi.2.1, flatten_toChunks] using htaken

/-- A login's custody, and the tick that takes it. -/
def firstTick (outcome : Option RefreshOutcome) : List WorkerOp :=
  [.insert ⟨"c"⟩ ⟨0⟩ 1 ⟨id, id⟩, .tick ⟨1⟩, .dispatch, .join ⟨"c"⟩ outcome ⟨1⟩ ⟨id, id⟩, .act, .act]

/-- A panic: between the ticks the custody is still in flight, in no heap entry,
    and no tick takes it. -/
theorem panic_forgets :
    let w := run KeepaliveWorker.step (start {}) (firstTick none)
    w.Idle ∧ (w.scheduler.entries ⟨"c"⟩).map (fun st => (st.status, st.nextRefresh, st.refreshing)) =
      some (.ok, ⟨1⟩, true) ∧ w.scheduler.due = [] ∧ ∀ now, (w.tick now).chunks = [] := by
  intro w
  refine ⟨by decide, by decide, by decide, fun now => ?_⟩
  have hdue : w.scheduler.due = [] := by decide
  rw [KeepaliveWorker.tick, Scheduler.takeDue, hdue]
  rfl

/-- At a concrete run: a transient failure is retried two seconds later. -/
theorem every_custody_renewed_retry :
    let w := run KeepaliveWorker.step (start {}) (firstTick (some (.transient (some 2))))
    w.Idle ∧ ((3 : ℤ), (⟨"c"⟩ : CustodyId)) ∈ w.scheduler.due := by
  intro w
  have hidle : w.Idle := by decide
  have hentry : w.scheduler.entries ⟨"c"⟩ = some ⟨.degraded, ⟨1⟩, ⟨3⟩, 1, false⟩ := by decide
  have hno : ∀ op ∈ firstTick (some (.transient (some 2))), ¬ op.Panics := by
    intro op hop
    simp only [firstTick, List.mem_cons, List.not_mem_nil, or_false] at hop
    rcases hop with rfl | rfl | rfl | rfl | rfl | rfl <;> exact id
  exact ⟨hidle, (every_custody_renewed {} _ hno hidle ⟨"c"⟩ _ hentry (by decide)).2.1⟩

end KeepaliveWorker

end SessionBroker
