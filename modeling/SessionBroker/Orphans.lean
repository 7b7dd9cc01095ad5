/-
  The token index under concurrency.

  * `Sys.view`: entries, index and owed index updates as a deferred index;
    `Stage.step_view` for a step under a lock, `Sys.step_view` for any step;
  * `Orderly`: the step does not remove a hash whose insertion is owed;
  * `index_exact_iff`.
-/
import SessionBroker.Tasks
import SessionBroker.Invariant
import SessionBroker.Lib.Deferred
import Mathlib.Algebra.Order.Group.Multiset

namespace SessionBroker

open Deferred Runs

/-! ## The index updates owed -/

/-- The entry an action inserts into the index. -/
def Action.inserts : Action → Option (TokenHash × Sid)
  | indexInsert hash sid => some (hash, sid)
  | _ => none

/-- The hash an action removes from the index. -/
def Action.removes : Action → Option TokenHash
  | indexRemove hash => some hash
  | _ => none

/-- The token a call may still mint. -/
def Stage.draws : Stage → Option TokenHash
  | refresh _ token _ | refreshEntry _ _ token _ => some token.hash
  | _ => none

/-- The hashes the entry of a session holds. -/
def SessionMap.held (m : SessionMap) (sid : Sid) : List TokenHash :=
  match m.sessions sid with
  | none => []
  | some e => e.allHashes

theorem SessionMap.mem_held {m : SessionMap} {sid : Sid} {hash : TokenHash} :
    hash ∈ m.held sid ↔ ∃ e, m.sessions sid = some e ∧ hash ∈ e.allHashes := by
  unfold held
  cases m.sessions sid <;> simp

theorem SessionMap.exact_held {m : SessionMap} : Exact m.held m.index ↔ m.IndexExact := by
  simp only [Exact, IndexExact, mem_held]

theorem SessionMap.held_update (m : SessionMap) (sid : Sid) (e : SessionEntry) :
    (m.setEntry sid e).held = Function.update m.held sid e.allHashes := by
  funext s
  rw [Function.update_apply]
  unfold held
  rw [setEntry_sessions, Function.update_apply]
  split_ifs <;> rfl

theorem IndexEffects.filterMap_inserts (effects : IndexEffects) (sid : Sid) :
    (effects.actions sid).filterMap Action.inserts =
      (effects.added.toList.map (·.tokenHash)).map fun hash => (hash, sid) := by
  obtain ⟨added, superseded, purged⟩ := effects
  have hpurge : (purged.flatMap fun hash => [Action.indexRemove hash,
      .persist (.deleteGeneration hash)]).filterMap Action.inserts = [] := by
    rw [List.filterMap_eq_nil_iff]
    intro a ha
    obtain ⟨hash, -, hx⟩ := List.mem_flatMap.1 ha
    simp only [List.mem_cons, List.not_mem_nil, or_false] at hx
    rcases hx with rfl | rfl <;> rfl
  cases added <;> cases superseded <;>
    simp only [actions, List.filterMap_append, hpurge] <;> rfl

theorem IndexEffects.filterMap_removes (effects : IndexEffects) (sid : Sid) :
    (effects.actions sid).filterMap Action.removes = effects.purged := by
  obtain ⟨added, superseded, purged⟩ := effects
  have hpurge : (purged.flatMap fun hash => [Action.indexRemove hash,
      .persist (.deleteGeneration hash)]).filterMap Action.removes = purged := by
    induction purged with
    | nil => rfl
    | cons hash purged ih =>
      rw [List.flatMap_cons, List.filterMap_append, ih]
      rfl
  cases added <;> cases superseded <;>
    simp only [actions, List.filterMap_append, hpurge] <;> rfl

/-! ## The view -/

/-- Sessions and index of a system, with what its tasks owe. -/
def Sys.view (s : Sys) : State Sid TokenHash where
  held := s.map.held
  index := s.map.index
  inserts := ↑(s.tasks.flatMap fun task => task.owed.filterMap Action.inserts)
  removes := ↑(s.tasks.flatMap fun task => task.owed.filterMap Action.removes)
  unused := ↑(s.tasks.flatMap fun task => task.stage.draws.toList)

theorem coe_flatMap_middle {α β : Type*} (f : α → List β) (pre post : List α) (a : α) :
    ((pre ++ a :: post).flatMap f : Multiset β) = ↑((pre ++ post).flatMap f) + ↑(f a) := by
  rw [Multiset.coe_add, Multiset.coe_eq_coe, List.flatMap_append, List.flatMap_cons,
    List.flatMap_append, List.append_assoc]
  exact List.perm_append_comm.append_left _

/-- The view, one task apart from the others. -/
theorem Sys.view_middle (m : SessionMap) (pre post : List Task) (task : Task) :
    Sys.view ⟨m, pre ++ task :: post⟩ =
      { held := m.held
        index := m.index
        inserts := ↑((pre ++ post).flatMap fun task => task.owed.filterMap Action.inserts) +
          ↑(task.owed.filterMap Action.inserts)
        removes := ↑((pre ++ post).flatMap fun task => task.owed.filterMap Action.removes) +
          ↑(task.owed.filterMap Action.removes)
        unused := ↑((pre ++ post).flatMap fun task => task.stage.draws.toList) +
          ↑task.stage.draws.toList } := by
  simp only [view, coe_flatMap_middle]

/-- Every memory of retired hashes is within its bound. -/
def SessionMap.Bounded (m : SessionMap) : Prop :=
  ∀ sid e, m.sessions sid = some e → e.retired.length ≤ m.policy.retiredMemory

/-- The index is left alone; what the entries hold stays, or changes for one
    session by what is to be inserted and removed. -/
structure Stage.Changes (m : SessionMap) (stage : Stage) (m' : SessionMap) (task : Task) :
    Prop where
  index : m'.index = m.index
  policy : m'.policy = m.policy
  bounded : m.Bounded → m'.Bounded
  held : m'.held = m.held ∧ task.owed.filterMap Action.inserts = [] ∧
      task.owed.filterMap Action.removes = [] ∧
      task.stage.draws.toList.Sublist stage.draws.toList ∨
    ∃ sid vs gained, (m.Bounded → (vs ++ task.owed.filterMap Action.removes).Perm
        (gained ++ m.held sid)) ∧ m'.held = Function.update m.held sid vs ∧
      task.owed.filterMap Action.inserts = gained.map (fun hash => (hash, sid)) ∧
      (gained ++ task.stage.draws.toList).Sublist stage.draws.toList

theorem SessionMap.Bounded.setEntry {m : SessionMap} {sid : Sid} {e : SessionEntry} (h : m.Bounded)
    (he : e.retired.length ≤ m.policy.retiredMemory) : (m.setEntry sid e).Bounded :=
  forall_update h (by rintro _ ⟨⟩; exact he)

/-- Nothing but the stage changes. -/
theorem Stage.changes_stage {m : SessionMap} {stage stage' : Stage}
    (hd : stage'.draws.toList.Sublist stage.draws.toList) : stage.Changes m m ⟨[], stage'⟩ :=
  ⟨rfl, rfl, id, Or.inl ⟨rfl, rfl, rfl, hd⟩⟩

/-- **A step under a lock.** -/
theorem Stage.step_view (m : SessionMap) (stage : Stage) :
    stage.Changes m (stage.step m).1 (stage.step m).2 := by
  have nothing : ∀ stage' : Stage, stage'.draws = none → stage.Changes m m ⟨[], stage'⟩ := by
    intro stage' hd
    refine changes_stage ?_
    rw [hd]
    exact List.nil_sublist _
  cases stage with
  | refresh hash token now =>
    simp only [Stage.step]
    cases m.index hash with
    | none => exact nothing _ rfl
    | some sid => exact changes_stage (List.Sublist.refl _)
  | refreshEntry sid hash token now =>
    simp only [Stage.step]
    cases he : m.sessions sid with
    | none => exact nothing _ rfl
    | some e =>
      dsimp only
      rcases hr : e.refresh hash token now m.policy with reason | ⟨e', cookies, effects⟩
      · exact nothing _ rfl
      · have hheld : m.held sid = e.allHashes := by simp only [SessionMap.held, he]
        refine ⟨rfl, rfl, fun hb => hb.setEntry ?_, Or.inr ⟨sid, e'.allHashes,
          effects.added.toList.map (·.tokenHash), fun hb => ?_, m.held_update sid e', ?_, ?_⟩⟩
        · rcases (SessionEntry.refresh_cases hr).2 with ⟨_, _, _, rfl, _⟩ | ⟨_, rfl, _⟩
          · exact hb sid e he
          · exact SessionEntry.reap_retired_le (hb sid e he)
        · rw [List.filterMap_append, IndexEffects.filterMap_removes, hheld]
          simpa [Action.removes, List.filterMap_cons] using
            SessionEntry.refresh_hashes (hb sid e he) hr
        · rw [List.filterMap_append, IndexEffects.filterMap_inserts]
          simp [Action.inserts, List.filterMap_cons]
        · have hadd := SessionEntry.refresh_added hr
          cases ha : effects.added with
          | none => exact List.nil_sublist _
          | some g =>
            have hg := hadd g ha
            simp [Stage.draws, hg]
  | tombstone sids reason now =>
    cases sids with
    | nil => exact nothing _ rfl
    | cons sid sids =>
      simp only [Stage.step]
      cases he : m.sessions sid with
      | none => exact nothing _ rfl
      | some e =>
        dsimp only
        split_ifs
        · refine ⟨rfl, rfl, fun hb => hb.setEntry (hb sid e he), Or.inl ⟨?_, rfl, rfl,
            List.Sublist.refl _⟩⟩
          have hsame : (e.killed now).allHashes = m.held sid := by
            simp only [SessionMap.held, he]
            rfl
          rw [SessionMap.held_update, hsame, Function.update_eq_self]
        · exact nothing _ rfl
  | collect order custody sids now =>
    cases order with
    | nil => exact nothing _ rfl
    | cons sid order =>
      simp only [Stage.step]
      split_ifs
      · exact nothing _ rfl
      · exact nothing _ rfl
  | sweep order removable now =>
    cases order with
    | nil => exact nothing _ rfl
    | cons sid order =>
      simp only [Stage.step]
      cases he : m.sessions sid with
      | none => exact nothing _ rfl
      | some e =>
        dsimp only
        split_ifs
        · exact nothing _ rfl
        · have hheld : m.held sid = e.allHashes := by simp only [SessionMap.held, he]
          refine ⟨rfl, rfl, fun hb => hb.setEntry (SessionEntry.reap_retired_le (hb sid e he)),
            Or.inr ⟨sid, _, [], fun hb => ?_, m.held_update sid _, ?_, List.Sublist.refl _⟩⟩
          · rw [IndexEffects.filterMap_removes, hheld]
            exact SessionEntry.reap_hashes now (hb sid e he)
          · rw [IndexEffects.filterMap_inserts]
            simp
  | remove removable =>
    cases removable with
    | nil => exact nothing _ rfl
    | cons sid removable =>
      simp only [Stage.step]
      cases he : m.sessions sid with
      | none => exact nothing _ rfl
      | some e =>
        have hheld : m.held sid = e.allHashes := by simp only [SessionMap.held, he]
        refine ⟨rfl, rfl, fun hb => forall_update hb (fun _ h => by cases h), Or.inr ⟨sid, [], [], fun _ => ?_, ?_,
          ?_, List.Sublist.refl _⟩⟩
        · simp [hheld, Action.removes, Function.comp_def]
        · funext s
          rw [Function.update_apply]
          unfold SessionMap.held
          rw [SessionMap.removeEntry_sessions, Function.update_apply]
          split_ifs <;> rfl
        · simp [Action.inserts, Function.comp_def]
  | done => exact nothing _ rfl

namespace Sys

/-! ## A step of the system -/

/-- The step of `i` does not remove a hash whose insertion is owed. -/
def Orderly (s : Sys) (i : ℕ) : Prop :=
  ∀ task ∈ s.tasks[i]?, ∀ hash ∈ task.owed.head?.bind Action.removes,
    ∀ other ∈ s.tasks, ∀ a ∈ other.owed, a.inserts.map Prod.fst ≠ some hash

instance (s : Sys) (i : ℕ) : Decidable (s.Orderly i) :=
  inferInstanceAs (Decidable (∀ task ∈ s.tasks[i]?, ∀ hash ∈ task.owed.head?.bind Action.removes, _))

/-- Every step of the schedule is orderly. -/
def OrderlyRun (s : Sys) : List ℕ → Prop
  | [] => True
  | i :: schedule => s.Orderly i ∧ (s.step i).OrderlyRun schedule

instance decidableOrderlyRun : (s : Sys) → (schedule : List ℕ) → Decidable (s.OrderlyRun schedule)
  | _, [] => inferInstanceAs (Decidable True)
  | s, i :: schedule =>
    have := decidableOrderlyRun (s.step i) schedule
    inferInstanceAs (Decidable (_ ∧ _))

theorem orderlyRun_concat (s : Sys) (schedule : List ℕ) (i : ℕ) :
    s.OrderlyRun (schedule ++ [i]) ↔
      s.OrderlyRun schedule ∧ (run step s schedule).Orderly i := by
  induction schedule generalizing s with
  | nil => simp [OrderlyRun]
  | cons j schedule ih =>
    rw [List.cons_append, OrderlyRun, OrderlyRun, ih, and_assoc]
    rfl

theorem mem_inserts {s : Sys} {hash : TokenHash} : hash ∈ s.view.inserts.map Prod.fst ↔
    ∃ other ∈ s.tasks, ∃ a ∈ other.owed, a.inserts.map Prod.fst = some hash := by
  simp only [view, Multiset.map_coe, Multiset.mem_coe, List.mem_map, List.mem_flatMap,
    List.mem_filterMap, Option.map_eq_some_iff]
  constructor
  · rintro ⟨p, ⟨other, ho, a, ha, hx⟩, rfl⟩
    exact ⟨other, ho, a, ha, p, hx, rfl⟩
  · rintro ⟨other, ho, a, ha, p, hx, rfl⟩
    exact ⟨p, ⟨other, ho, a, ha, hx⟩, rfl⟩

/-- Where no task owes anything, no update of the index is owed. -/
theorem view_of_owed_nil {s : Sys} (h : ∀ task ∈ s.tasks, task.owed = []) :
    s.view.inserts = 0 ∧ s.view.removes = 0 := by
  constructor
  · refine (Multiset.coe_eq_zero _).2 (List.flatMap_eq_nil_iff.2 fun task ht => ?_)
    rw [h task ht]
    rfl
  · refine (Multiset.coe_eq_zero _).2 (List.flatMap_eq_nil_iff.2 fun task ht => ?_)
    rw [h task ht]
    rfl

/-- **What a step does** to the view: it keeps what holds of an orderly system,
    and an orphan; a step that is not orderly makes one. -/
theorem step_view {s : Sys} (i : ℕ) (hb : s.map.Bounded) :
    (s.step i).map.Bounded ∧
    (Consistent s.view → s.Orderly i → Consistent (s.step i).view) ∧
    (Consistent s.view → ¬ s.Orderly i → ∃ hash, Orphan (s.step i).view hash) ∧
    ∀ hash, Orphan s.view hash → Orphan (s.step i).view hash := by
  rcases s.step_cases i with ⟨hi, hs⟩ | ⟨pre, task, post, hi, htasks, hs⟩
  · rw [hs]
    have hord : s.Orderly i := fun task hx => by rw [hi] at hx; cases hx
    exact ⟨hb, fun h _ => h, fun _ h => absurd hord h, fun _ => id⟩
  obtain ⟨owed, stage⟩ := task
  have hview : s.view = Sys.view ⟨s.map, pre ++ ⟨owed, stage⟩ :: post⟩ := by
    rw [← htasks]
  have orderly : owed.head?.bind Action.removes = none → s.Orderly i := by
    intro hno task hx hash hh
    rw [hi] at hx
    cases hx
    rw [hno] at hh
    cases hh
  cases owed with
  | nil =>
    have hord : s.Orderly i := orderly rfl
    have hch := Stage.step_view s.map stage
    have hs : s.step i = ⟨(stage.step s.map).1, pre ++ (stage.step s.map).2 :: post⟩ := hs
    have hchange : Change s.view (s.step i).view := by
      rw [hs, hview, view_middle, view_middle, hch.index]
      rcases hch.held with ⟨hh, hins, hrem, hd⟩ | ⟨sid, vs, gained, hp, hh, hins, hd⟩
      · rw [hh, hins, hrem]
        exact .discard (add_le_add_right (Multiset.coe_le.2 hd.subperm) _)
      · have hu : (gained : Multiset TokenHash) +
            (↑((pre ++ post).flatMap fun task => task.stage.draws.toList) +
              ↑(stage.step s.map).2.stage.draws.toList) ≤
            ↑((pre ++ post).flatMap fun task => task.stage.draws.toList) +
              ↑stage.draws.toList := by
          rw [add_left_comm, Multiset.coe_add]
          exact add_le_add_right (Multiset.coe_le.2 hd.subperm) _
        have hc := Change.change (s := (Sys.view ⟨s.map, pre ++ ⟨[], stage⟩ :: post⟩)) (hp hb)
          (by rw [view_middle]; exact hu)
        rw [view_middle] at hc
        simpa only [hh, hins, List.filterMap_nil, Multiset.coe_nil, add_zero] using hc
    exact ⟨by rw [hs]; exact hch.bounded hb, fun h _ => h.of_change hchange,
      fun _ h => absurd hord h, fun _ h => h.of_change hchange⟩
  | cons a owed =>
    have hs : s.step i = ⟨s.map.act a, pre ++ ⟨owed, stage⟩ :: post⟩ := hs
    rw [hs]
    cases a with
    | indexInsert hash sid =>
      have hins : s.view.inserts = (hash, sid) ::ₘ
          (Sys.view ⟨s.map, pre ++ ⟨owed, stage⟩ :: post⟩).inserts := by
        rw [hview, view_middle, view_middle]
        exact Multiset.add_cons (hash, sid) _ ↑(owed.filterMap Action.inserts)
      have hafter : Sys.view ⟨s.map.act (.indexInsert hash sid), pre ++ ⟨owed, stage⟩ :: post⟩ =
          { s.view with
            index := Function.update s.view.index hash (some sid)
            inserts := (Sys.view ⟨s.map, pre ++ ⟨owed, stage⟩ :: post⟩).inserts } := by
        rw [hview, view_middle, view_middle, view_middle]
        rfl
      have hord : s.Orderly i := orderly rfl
      rw [hafter]
      exact ⟨hb, fun h _ => h.insert hins, fun _ h => absurd hord h, fun _ h => h.insert hins⟩
    | indexRemove hash =>
      have hrem : s.view.removes = hash ::ₘ
          (Sys.view ⟨s.map, pre ++ ⟨owed, stage⟩ :: post⟩).removes := by
        rw [hview, view_middle, view_middle]
        exact Multiset.add_cons hash _ ↑(owed.filterMap Action.removes)
      have hafter : Sys.view ⟨s.map.act (.indexRemove hash), pre ++ ⟨owed, stage⟩ :: post⟩ =
          { s.view with
            index := Function.update s.view.index hash none
            removes := (Sys.view ⟨s.map, pre ++ ⟨owed, stage⟩ :: post⟩).removes } := by
        rw [hview, view_middle, view_middle, view_middle]
        rfl
      have hord : s.Orderly i ↔ hash ∉ s.view.inserts.map Prod.fst := by
        rw [mem_inserts]
        constructor
        · rintro h ⟨other, ho, a, ha, hx⟩
          exact h _ hi hash rfl other ho a ha hx
        · intro h task hx hash' hh other ho a ha hin
          rw [hi] at hx
          cases hx
          cases hh
          exact h ⟨other, ho, a, ha, hin⟩
      rw [hafter, hord, not_not]
      exact ⟨hb, fun h hc => h.remove hrem hc, fun h hc => ⟨hash, h.orphan hrem hc⟩,
        fun _ h => h.remove hrem⟩
    | persist cmd =>
      have hafter : Sys.view ⟨s.map.act (.persist cmd), pre ++ ⟨owed, stage⟩ :: post⟩ =
          s.view := by
        rw [hview, view_middle, view_middle]
        rfl
      have hord : s.Orderly i := orderly rfl
      rw [hafter]
      exact ⟨hb, fun h _ => h, fun _ h => absurd hord h, fun _ => id⟩
    | announce event =>
      have hafter : Sys.view ⟨s.map.act (.announce event), pre ++ ⟨owed, stage⟩ :: post⟩ =
          s.view := by
        rw [hview, view_middle, view_middle]
        rfl
      have hord : s.Orderly i := orderly rfl
      rw [hafter]
      exact ⟨hb, fun h _ => h, fun _ h => absurd hord h, fun _ => id⟩

theorem draws_start (m : SessionMap) (ops : List Op) :
    ((start m ops).tasks.flatMap fun task => task.stage.draws.toList).Sublist
      (ops.filterMap Op.draws) := by
  induction ops with
  | nil => exact List.nil_sublist _
  | cons op ops ih =>
    cases op with
    | create => exact ih.cons _
    | refresh hash token now => exact ih.cons_cons _
    | _ => exact ih

/-- A run of orderly steps leaves a consistent view, any other an orphan. -/
theorem view_run {m : SessionMap} {ops : List Op} (hw : m.Wf) (hf : FreshFrom m ops)
    (schedule : List ℕ) :
    (run step (start m ops) schedule).map.Bounded ∧
    ((start m ops).OrderlyRun schedule → Consistent (run step (start m ops) schedule).view) ∧
    (¬ (start m ops).OrderlyRun schedule →
      ∃ hash, Orphan (run step (start m ops) schedule).view hash) := by
  induction schedule using List.reverseRecOn with
  | nil =>
    refine ⟨fun sid e he => (hw.sound sid e he).memory, fun _ => ?_, fun h => absurd trivial h⟩
    have howed : ∀ task ∈ (start m ops).tasks, task.owed = [] := by
      intro task ht
      obtain ⟨op, -, hop⟩ := List.mem_filterMap.1 ht
      cases op <;> cases hop <;> rfl
    have hdraws := draws_start m ops
    obtain ⟨hins, hrem⟩ := view_of_owed_nil howed
    refine consistent_of_exact (SessionMap.exact_held.2 hw.index) (fun sid => ?_) hins hrem
      (Multiset.coe_nodup.2 (hf.1.1.sublist hdraws)) fun hash hh => ?_
    · show (m.held sid).Nodup
      unfold SessionMap.held
      cases he : m.sessions sid with
      | none => exact List.nodup_nil
      | some e => exact (hw.sound sid e he).nodup
    · have hno := hf.2.1 hash (hdraws.subset (Multiset.mem_coe.1 hh))
      exact not_not.1 fun hx => hno (Or.inl hx)
  | append_singleton schedule i ih =>
    obtain ⟨hb, hgood, hbad⟩ := ih
    obtain ⟨hb', hcons, horph, hkeep⟩ := step_view i hb
    rw [run_concat, orderlyRun_concat]
    refine ⟨hb', fun h => hcons (hgood h.1) h.2, fun h => ?_⟩
    by_cases hs : (start m ops).OrderlyRun schedule
    · exact horph (hgood hs) fun hi => h ⟨hs, hi⟩
    · obtain ⟨hash, ho⟩ := hbad hs
      exact ⟨hash, hkeep hash ho⟩

/-- **The index is exact** when all calls have finished, exactly if no step
    removed a hash whose insertion was owed. -/
theorem index_exact_iff (m : SessionMap) (ops : List Op) (hw : m.Wf) (hf : FreshFrom m ops)
    (schedule : List ℕ) (hfin : (run step (start m ops) schedule).Finished) :
    (run step (start m ops) schedule).map.IndexExact ↔ (start m ops).OrderlyRun schedule := by
  have howed : ∀ task ∈ (run step (start m ops) schedule).tasks, task.owed = [] := by
    intro task ht
    rw [show task = ⟨[], .done⟩ from hfin task ht]
  obtain ⟨hins, hrem⟩ := view_of_owed_nil howed
  obtain ⟨-, hgood, hbad⟩ := view_run hw hf schedule
  rw [← SessionMap.exact_held]
  constructor
  · intro h
    by_contra hno
    obtain ⟨hash, ho⟩ := hbad hno
    exact ho.not_exact hins h
  · intro h
    exact (hgood h).exact hins hrem

/-- Three refreshes under a cap of two: the second hash is forgotten before it
    is indexed. -/
theorem index_keeps_orphan :
    let policy : SessionPolicy := { maxLiveGens := 2, retiredMemory := 0, coalesceSecs := 0 }
    let m := SessionMap.runs policy [.create ⟨"s"⟩ ⟨"c"⟩ "alice" .sample1 ⟨0⟩]
    let ops : List Op := [.refresh SessionToken.sample1.hash .sample2 ⟨1⟩,
      .refresh SessionToken.sample1.hash .sample3 ⟨2⟩,
      .refresh SessionToken.sample3.hash .sample4 ⟨3⟩]
    let s := run step (start m ops) ([0, 0] ++ List.replicate 8 1 ++ List.replicate 8 2 ++
      List.replicate 4 0)
    (ops.filterMap Op.draws).Nodup ∧ s.Finished ∧
      s.map.index SessionToken.sample2.hash = some ⟨"s"⟩ ∧
      (s.map.sessions ⟨"s"⟩).map SessionEntry.allHashes =
        some [SessionToken.sample3.hash, SessionToken.sample4.hash] ∧
      ¬ s.map.IndexExact := by
  intro policy m ops s
  have hentry : (s.map.sessions ⟨"s"⟩).map SessionEntry.allHashes =
      some [SessionToken.sample3.hash, SessionToken.sample4.hash] := by decide
  have hindex : s.map.index SessionToken.sample2.hash = some ⟨"s"⟩ := by decide
  refine ⟨by decide, by decide, hindex, hentry, fun h => ?_⟩
  obtain ⟨e, he, hh⟩ := (h _ _).1 hindex
  rw [he, Option.map_some, Option.some.injEq] at hentry
  rw [hentry] at hh
  revert hh
  decide

/-- At a concrete run: a refresh overtaken by a sweep. -/
theorem index_exact_iff_overtaken :
    let m := SessionMap.runs {} [.create ⟨"s"⟩ ⟨"c"⟩ "alice" .sample1 ⟨0⟩]
    let ops : List Op := [.refresh SessionToken.sample1.hash .sample2 ⟨100⟩, .sweep [⟨"s"⟩] ⟨200⟩]
    (run step (start m ops) ([0, 0] ++ List.replicate 5 1 ++ List.replicate 4 0)).map.IndexExact := by
  intro m ops
  have hm : m.Wf := (SessionMap.wf_withDurability {}).move
    (.create (by simp [SessionMap.Knows, SessionMap.withDurability, SessionMap.issued])
      (by simp [SessionMap.KnowsSid, SessionMap.withDurability, SessionMap.created]))
  have hf : FreshFrom m ops := by
    refine ⟨by decide, fun hash hh => ?_, fun sid hs => ?_⟩
    · obtain rfl : hash = SessionToken.sample2.hash := by simpa [ops, Op.draws] using hh
      rintro (h | h) <;> revert h <;> decide
    · simp [ops, Op.logsIn] at hs
  exact (index_exact_iff m ops hm hf _ (by decide)).2 (by decide)

end Sys

end SessionBroker
