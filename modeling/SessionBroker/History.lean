/-
  Every generation a session was ever given, read off the writer's queue.

  * `history`: the generations issued for a session, oldest first, each with
    the time at which it was superseded; `row`: its row;
  * `Chronicle`: at nondecreasing times they are in the order of their
    deadlines;
  * `Recorded`: an entry's generations are some of the history's, up to and
    including the last one.
-/
import SessionBroker.Stored
import Mathlib.Order.MinMax

namespace SessionBroker

open Bounded Runs

/-! ## The history of a session -/

/-- What one command adds to the history of `sid`. -/
def SessionCommand.record (sid : Sid) (gens : List Generation) : SessionCommand → List Generation
  | insertGeneration sid' genNo hash createdAt activeUntil =>
    gens ++ if sid' = sid then [⟨genNo, hash, createdAt, activeUntil, none⟩] else []
  | supersedeGeneration hash supersededAt =>
    gens.map (Generation.superseded (some (hash, supersededAt)))
  | _ => gens

/-- The generations ever issued for a session. -/
def SessionMap.history (m : SessionMap) (sid : Sid) : List Generation :=
  m.queue.foldl (SessionCommand.record sid) []

theorem foldl_record_deletes (sid : Sid) (gens : List Generation) (hashes : List TokenHash) :
    (hashes.map SessionCommand.deleteGeneration).foldl (SessionCommand.record sid) gens = gens := by
  induction hashes with
  | nil => rfl
  | cons h hashes ih => exact ih

theorem foldl_record_commands (effects : IndexEffects) (sid sid' : Sid) (gens : List Generation)
    (hn : ∀ g ∈ effects.added, g.supersededAt = none) :
    (effects.commands sid').foldl (SessionCommand.record sid) gens =
      (gens ++ if sid' = sid then effects.added.toList else []).map
        (Generation.superseded effects.superseded) := by
  obtain ⟨added, superseded, purged⟩ := effects
  have hadd : (added.toList.map fun g => SessionCommand.insertGeneration sid' g.genNo g.tokenHash
      g.createdAt g.activeUntil).foldl (SessionCommand.record sid) gens =
      gens ++ if sid' = sid then added.toList else [] := by
    cases added with
    | none => simp
    | some g =>
      have := hn g rfl
      obtain ⟨genNo, hash, createdAt, activeUntil, supersededAt⟩ := g
      simp only at this
      subst this
      rfl
  have hsup : ∀ gens, (superseded.toList.map fun p => SessionCommand.supersedeGeneration p.1
      p.2).foldl (SessionCommand.record sid) gens =
      gens.map (Generation.superseded superseded) := by
    intro gens
    cases superseded with
    | none => simp
    | some p => rfl
  rw [IndexEffects.commands, List.foldl_append, List.foldl_append, hadd, hsup,
    foldl_record_deletes]

namespace SessionMap

section
variable (m : SessionMap) (sid sid' : Sid) (e : SessionEntry) (effects : IndexEffects)
  (now : Timestamp) (reason : KillReason) (custody : CustodyId) (sub : String)
  (token : SessionToken)

theorem history_create : (m.create sid' custody sub token now).1.history sid =
    m.history sid ++
      if sid' = sid then (newEntry m.policy sid custody sub token now).gens else [] := by
  simp only [history, create_queue, List.foldl_append, newCommands, newEntry, List.foldl_cons,
    List.map_cons, List.map_nil, List.foldl_nil, SessionCommand.record]

theorem history_commit (hn : ∀ g ∈ effects.added, g.supersededAt = none) :
    (m.commit sid' e effects).history sid =
      (m.history sid ++ if sid' = sid then effects.added.toList else []).map
        (Generation.superseded effects.superseded) := by
  simp only [history, commit_queue, List.foldl_append, foldl_record_commands _ _ _ _ hn]
  rfl

@[simp] theorem history_kill : (m.kill sid' e now reason).history sid = m.history sid := by
  simp [history, SessionCommand.record]

@[simp] theorem history_reap : (m.reap sid' e now).history sid = m.history sid := by
  simp only [history, reap_queue, List.foldl_append]
  rw [foldl_record_commands _ _ _ _ (by simp)]
  simp

@[simp] theorem history_forget : (m.forget sid' e).history sid = m.history sid := by
  simp [history]

end

theorem length_history (m : SessionMap) (sid : Sid) :
    (m.history sid).length = m.generations sid := by
  obtain ⟨policy, sessions, index, queue, events⟩ := m
  simp only [history, generations]
  induction queue using List.reverseRecOn with
  | nil => rfl
  | append_singleton queue c ih =>
    rw [List.foldl_append, List.filterMap_append, List.count_append, ← ih]
    cases c with
    | insertGeneration sid' =>
      by_cases hs : sid' = sid <;>
        simp [SessionCommand.record, SessionCommand.generationOf, hs]
    | _ => simp [SessionCommand.record, SessionCommand.generationOf, List.filterMap_cons]

theorem map_hash_history (m : SessionMap) (sid : Sid) :
    (m.history sid).map (·.tokenHash) = m.issuedTo sid := by
  obtain ⟨policy, sessions, index, queue, events⟩ := m
  simp only [history, issuedTo]
  induction queue using List.reverseRecOn with
  | nil => rfl
  | append_singleton queue c ih =>
    rw [List.foldl_append, List.filterMap_append, ← ih]
    cases c with
    | insertGeneration sid' =>
      by_cases hs : sid' = sid <;>
        simp [SessionCommand.record, SessionCommand.issuesTo, hs]
    | supersedeGeneration =>
      simp [SessionCommand.record, SessionCommand.issuesTo, Function.comp_def,
        List.filterMap_cons]
    | _ => simp [SessionCommand.record, SessionCommand.issuesTo, List.filterMap_cons]

end SessionMap

/-- What is stored of a session is part of its history. -/
theorem Tables.gensOf_applyAll {sid : Sid} {cmds : List SessionCommand} {t t' : Tables}
    {gens : List Generation} (ha : t.applyAll cmds = some t') (hs : (t.gensOf sid).Sublist gens) :
    (t'.gensOf sid).Sublist (cmds.foldl (SessionCommand.record sid) gens) := by
  induction cmds generalizing t gens with
  | nil => cases ha; exact hs
  | cons c cmds ih =>
    rw [applyAll_cons, Option.bind_eq_some_iff] at ha
    obtain ⟨t₁, h₁, h₂⟩ := ha
    refine ih h₂ ?_
    cases c with
    | insertSession row =>
      simp only [applyCommand, insertSession] at h₁
      split_ifs at h₁
      obtain ⟨c, -, rfl⟩ := Option.map_eq_some_iff.1 h₁
      exact hs
    | updateSessionProgress | tombstoneSession => cases h₁; exact hs
    | insertGeneration sid' genNo hash createdAt activeUntil =>
      simp only [applyCommand, insertGeneration] at h₁
      split_ifs at h₁
      cases h₁
      simp only [gensOf, rowsOf, List.filter_append, List.map_append]
      refine hs.append ?_
      split_ifs with hx <;> simp [hx, GenerationRow.toGeneration]
    | supersedeGeneration hash supersededAt =>
      cases h₁
      have hmap := map_supersede_purge { superseded := some (hash, supersededAt) } sid t.generation
      simp only [List.not_mem_nil, not_false_iff, decide_true, List.filter_true] at hmap
      show ((((t.generation.map _).filter _).map _).Sublist _)
      rw [← supersede_some (hash, supersededAt), hmap]
      exact hs.map _
    | deleteGeneration hash =>
      cases h₁
      refine List.Sublist.trans ?_ hs
      exact (List.filter_sublist.filter _).map _

/-! ## The row of a session -/

/-- What one command makes of the row of `sid`. -/
def SessionCommand.writeRow (sid : Sid) (row : Option SessionRow) :
    SessionCommand → Option SessionRow
  | insertSession row' => if row'.sid = sid then some row' else row
  | updateSessionProgress sid' currentGen idleExp =>
    if sid' = sid then row.map fun row => { row with currentGen, idleExp } else row
  | tombstoneSession sid' _ =>
    if sid' = sid then row.map fun row => { row with status := .tombstoned } else row
  | _ => row

/-- The row the queue leaves a session. -/
def SessionMap.row (m : SessionMap) (sid : Sid) : Option SessionRow :=
  m.queue.foldl (SessionCommand.writeRow sid) none

/-- The row of a session in the table. -/
def Tables.rowOf (t : Tables) (sid : Sid) : Option SessionRow :=
  (t.session.find? fun r => r.row.sid = sid).map (·.row)

theorem Tables.rowOf_map (t : Tables) (sid sid' : Sid) (f : SessionRecord → SessionRecord)
    (hf : ∀ r, (f r).row.sid = r.row.sid) :
    ({ t with session := t.session.map fun r => if r.row.sid = sid' then f r else r } : Tables).rowOf
      sid = if sid' = sid then
        (t.session.find? fun r => r.row.sid = sid).map fun r => (f r).row else t.rowOf sid := by
  have hsid : (fun r : SessionRecord => decide ((if r.row.sid = sid' then f r else r).row.sid = sid)) =
      fun r => decide (r.row.sid = sid) := by
    funext r
    split_ifs
    · rw [hf]
    · rfl
  simp only [rowOf, List.find?_map, Function.comp_def, hsid, Option.map_map]
  cases hr : t.session.find? fun r => r.row.sid = sid with
  | none => split_ifs <;> rfl
  | some r =>
    have hrs : r.row.sid = sid := by simpa using List.find?_some hr
    by_cases hx : sid' = sid
    · subst hx
      simp [hrs]
    · simp [hx, hrs, Ne.symm hx]

theorem Tables.rowOf_applyCommand {t t' : Tables} {c : SessionCommand} (sid : Sid)
    (h : t.applyCommand c = some t') : t'.rowOf sid = c.writeRow sid (t.rowOf sid) := by
  cases c with
  | insertSession row =>
    simp only [applyCommand, insertSession] at h
    split_ifs at h with hs
    obtain ⟨c, -, rfl⟩ := Option.map_eq_some_iff.1 h
    simp only [rowOf, List.find?_append, SessionCommand.writeRow, List.find?_singleton]
    by_cases hx : row.sid = sid
    · have hno : t.session.find? (fun r => r.row.sid = sid) = none := by
        rw [List.find?_eq_none]
        intro r hr hrs
        exact hs (List.any_eq_true.2 ⟨r, hr, by rw [hx]; exact hrs⟩)
      simp [hno, hx]
    · simp [hx]
  | updateSessionProgress sid' currentGen idleExp =>
    cases h
    refine (rowOf_map t sid sid' (fun r => { r with row := { r.row with
      currentGen := currentGen, idleExp := idleExp } }) fun _ => rfl).trans ?_
    simp only [SessionCommand.writeRow, rowOf, Option.map_map]
    rfl
  | tombstoneSession sid' now =>
    cases h
    refine (rowOf_map t sid sid' (fun r => { r with
      row := { r.row with status := .tombstoned },
      tombstonedAt := r.tombstonedAt.or (some now) }) fun _ => rfl).trans ?_
    simp only [SessionCommand.writeRow, rowOf, Option.map_map]
    rfl
  | insertGeneration sid' genNo hash createdAt activeUntil =>
    simp only [applyCommand, insertGeneration] at h
    split_ifs at h
    cases h
    rfl
  | supersedeGeneration hash supersededAt => cases h; rfl
  | deleteGeneration hash => cases h; rfl

/-- **The table holds the row the commands leave.** -/
theorem Tables.rowOf_applyAll {cmds : List SessionCommand} {t t' : Tables} (sid : Sid)
    (ha : t.applyAll cmds = some t') :
    t'.rowOf sid = cmds.foldl (SessionCommand.writeRow sid) (t.rowOf sid) := by
  induction cmds generalizing t with
  | nil => cases ha; rfl
  | cons c cmds ih =>
    rw [applyAll_cons, Option.bind_eq_some_iff] at ha
    obtain ⟨t₁, h₁, h₂⟩ := ha
    rw [ih h₂, rowOf_applyCommand sid h₁, List.foldl_cons]

theorem Tables.Keyed.rowOf_eq {t : Tables} (h : t.Keyed) {r : SessionRecord} (hr : r ∈ t.session) :
    t.rowOf r.row.sid = some r.row := by
  rw [rowOf, Option.map_eq_some_iff]
  refine ⟨r, ?_, rfl⟩
  cases hf : t.session.find? fun r' => r'.row.sid = r.row.sid with
  | none => simpa using List.find?_eq_none.1 hf r hr
  | some r' =>
    have hrs : r'.row.sid = r.row.sid := by simpa using List.find?_some hf
    rw [List.inj_on_of_nodup_map h.session (List.mem_of_find?_eq_some hf) hr hrs]

theorem Tables.mem_of_rowOf {t : Tables} {sid : Sid} {row : SessionRow}
    (h : t.rowOf sid = some row) : ∃ r ∈ t.session, r.row = row ∧ row.sid = sid := by
  obtain ⟨r, hr, rfl⟩ := Option.map_eq_some_iff.1 h
  exact ⟨r, List.mem_of_find?_eq_some hr, rfl, by simpa using List.find?_some hr⟩

/-- The commands of an `IndexEffects` write no session row. -/
theorem writeRow_commands {effects : IndexEffects} {sid sid' : Sid} {c : SessionCommand}
    (hc : c ∈ effects.commands sid') (row : Option SessionRow) : c.writeRow sid row = row := by
  simp only [IndexEffects.commands, List.mem_append, List.mem_map] at hc
  rcases hc with (⟨_, _, rfl⟩ | ⟨_, _, rfl⟩) | ⟨_, _, rfl⟩ <;> rfl

theorem foldl_writeRow_eq {sid : Sid} {cmds : List SessionCommand} {row : Option SessionRow}
    (h : ∀ c ∈ cmds, c.writeRow sid row = row) :
    cmds.foldl (SessionCommand.writeRow sid) row = row := by
  induction cmds with
  | nil => rfl
  | cons c cmds ih =>
    rw [List.foldl_cons, h c List.mem_cons_self]
    exact ih fun c' hc => h c' (List.mem_cons_of_mem _ hc)

theorem foldl_writeRow_commands (effects : IndexEffects) (sid sid' : Sid)
    (row : Option SessionRow) :
    (effects.commands sid').foldl (SessionCommand.writeRow sid) row = row :=
  foldl_writeRow_eq fun _ hc => writeRow_commands hc row

namespace SessionMap

section
variable (m : SessionMap) (sid sid' : Sid) (e : SessionEntry) (effects : IndexEffects)
  (now : Timestamp) (reason : KillReason) (custody : CustodyId) (sub : String)
  (token : SessionToken)

theorem row_create_of_ne (hs : sid' ≠ sid) :
    (m.create sid' custody sub token now).1.row sid = m.row sid := by
  simp [row, newCommands, newEntry, SessionCommand.writeRow, hs]

theorem row_commit : (m.commit sid' e effects).row sid =
    if sid' = sid then
      (m.row sid).map fun row => { row with currentGen := e.currentGen, idleExp := e.idleExp }
    else m.row sid := by
  simp only [row, commit_queue, List.foldl_append, foldl_writeRow_commands]
  rfl

theorem row_kill : (m.kill sid' e now reason).row sid =
    if sid' = sid then (m.row sid).map fun row => { row with status := .tombstoned }
    else m.row sid := by
  simp only [row, kill_queue, List.foldl_append]
  rfl

@[simp] theorem row_reap : (m.reap sid' e now).row sid = m.row sid := by
  simp only [row, reap_queue, List.foldl_append, foldl_writeRow_commands]

@[simp] theorem row_forget : (m.forget sid' e).row sid = m.row sid := by simp [row]

end

end SessionMap

/-! ## Deadlines in order -/

/-- At `now`, the generations are in the order in which they were issued and
    superseded. -/
structure Chronicle (policy : SessionPolicy) (now : Timestamp) (gens : List Generation) :
    Prop where
  active : gens.Pairwise fun g h => g.activeUntil ≤ h.activeUntil
  issued : ∀ g ∈ gens, g.activeUntil ≤ now.plusSecs policy.genTtlSecs
  superseded : gens.Pairwise fun g h => ∃ s, g.supersededAt = some s ∧
    ∀ s' ∈ h.supersededAt, s ≤ s'
  past : ∀ g ∈ gens, ∀ s ∈ g.supersededAt, s ≤ now

namespace Chronicle

variable {policy : SessionPolicy} {now now' : Timestamp} {gens : List Generation}

theorem mono (h : Chronicle policy now gens) (ht : now ≤ now') : Chronicle policy now' gens :=
  ⟨h.active, fun g hg => (h.issued g hg).trans (Timestamp.plusSecs_mono ht _), h.superseded,
    fun g hg s hs => (h.past g hg s hs).trans ht⟩

theorem nil : Chronicle policy now [] where
  active := List.Pairwise.nil
  issued := fun _ h => by cases h
  superseded := List.Pairwise.nil
  past := fun _ h => by cases h

theorem sublist {gens' : List Generation} (h : Chronicle policy now gens)
    (hs : gens'.Sublist gens) : Chronicle policy now gens' :=
  ⟨h.active.sublist hs, fun g hg => h.issued g (hs.subset hg), h.superseded.sublist hs,
    fun g hg => h.past g (hs.subset hg)⟩

/-- A generation's validity ends no later than its successors'. -/
theorem valid (h : Chronicle policy now gens) : gens.Pairwise fun g g' =>
    g.resourceValidUntil policy.graceSecs ≤ g'.resourceValidUntil policy.graceSecs := by
  refine (h.active.and h.superseded).imp ?_
  rintro g g' ⟨ha, s, hs, hle⟩
  simp only [Generation.resourceValidUntil, hs]
  cases hs' : g'.supersededAt with
  | none => exact (min_le_left _ _).trans ha
  | some s' => exact min_le_min ha (Timestamp.plusSecs_mono (hle s' hs') _)

/-- Superseding the last generation and adding one at `now`. -/
theorem push {gs : List Generation} {g g' : Generation} (h : Chronicle policy now (gs ++ [g]))
    (ha : g'.activeUntil = now.plusSecs policy.genTtlSecs) (hs : g'.supersededAt = none) :
    Chronicle policy now (gs ++ [{ g with supersededAt := some now }] ++ [g']) := by
  obtain ⟨hact, hiss, hsup, hpast⟩ := h
  rw [List.pairwise_append] at hact hsup
  have hgs : ∀ x ∈ gs, x ∈ gs ++ [g] := fun x hx => List.mem_append_left _ hx
  have hg : g ∈ gs ++ [g] := List.mem_append_right _ (List.mem_singleton_self g)
  constructor
  · rw [List.pairwise_append, List.pairwise_append]
    refine ⟨⟨hact.1, List.pairwise_singleton .., ?_⟩, List.pairwise_singleton .., ?_⟩
    · intro x hx y hy
      rw [List.mem_singleton.1 hy]
      exact hact.2.2 x hx g (List.mem_singleton_self g)
    · intro x hx y hy
      rw [List.mem_singleton.1 hy, ha]
      rcases List.mem_append.1 hx with hx | hx
      · exact hiss x (hgs x hx)
      · rw [List.mem_singleton.1 hx]
        exact hiss g hg
  · intro x hx
    rcases List.mem_append.1 hx with hx | hx
    · rcases List.mem_append.1 hx with hx | hx
      · exact hiss x (hgs x hx)
      · rw [List.mem_singleton.1 hx]
        exact hiss g hg
    · rw [List.mem_singleton.1 hx, ha]
  · rw [List.pairwise_append, List.pairwise_append]
    refine ⟨⟨hsup.1, List.pairwise_singleton .., ?_⟩, List.pairwise_singleton .., ?_⟩
    · intro x hx y hy
      rw [List.mem_singleton.1 hy]
      obtain ⟨s, hxs, -⟩ := hsup.2.2 x hx g (List.mem_singleton_self g)
      refine ⟨s, hxs, fun s' hs' => ?_⟩
      cases hs'
      exact hpast x (hgs x hx) s hxs
    · intro x hx y hy
      rw [List.mem_singleton.1 hy, hs]
      rcases List.mem_append.1 hx with hx | hx
      · obtain ⟨s, hxs, -⟩ := hsup.2.2 x hx g (List.mem_singleton_self g)
        exact ⟨s, hxs, fun _ h => by cases h⟩
      · rw [List.mem_singleton.1 hx]
        exact ⟨now, rfl, fun _ h => by cases h⟩
  · intro x hx s hxs
    rcases List.mem_append.1 hx with hx | hx
    · rcases List.mem_append.1 hx with hx | hx
      · exact hpast x (hgs x hx) s hxs
      · rw [List.mem_singleton.1 hx] at hxs
        cases hxs
        exact le_rfl
    · rw [List.mem_singleton.1 hx, hs] at hxs
      cases hxs

end Chronicle

/-! ## Entry and history -/

/-- The entry's generations are some of the history's, the last one included. -/
structure SessionEntry.Recorded (e : SessionEntry) (history : List Generation) : Prop where
  ends : ∃ hs es g, history = hs ++ [g] ∧ e.gens = es ++ [g] ∧ es.Sublist hs

namespace SessionEntry

variable {e : SessionEntry} {policy : SessionPolicy} {token : SessionToken} {now : Timestamp}
  {history : List Generation}

theorem Recorded.sublist (h : e.Recorded history) : e.gens.Sublist history := by
  obtain ⟨hs, es, g, rfl, he, hsub⟩ := h.ends
  rw [he]
  exact hsub.append_right _

theorem Recorded.reap (now : Timestamp) (hs : e.Sound policy) (h : e.Recorded history) :
    (e.reapGenerations now policy).1.Recorded history := by
  obtain ⟨gs, g, hg⟩ := hs.ends
  obtain ⟨hs', es, g', hh, he, hsub⟩ := h.ends
  obtain ⟨rfl, hgg⟩ := List.append_inj' (hg.gens.symm.trans he) rfl
  obtain rfl := List.singleton_inj.1 hgg
  refine ⟨hs', _, g, hh, reap_concat hs.memory hg.gens hg.genNo, ?_⟩
  exact ((keepLast_sublist ..).trans List.filter_sublist).trans hsub

theorem Recorded.pushed (h : e.Recorded history) (token : SessionToken) (now : Timestamp)
    (policy : SessionPolicy) : (e.pushed token now policy).Recorded
      (supersedeLast now history ++ [e.minted token now policy]) := by
  obtain ⟨hs, es, g, rfl, he, hsub⟩ := h.ends
  refine ⟨hs ++ [{ g with supersededAt := some now }], es ++ [{ g with supersededAt := some now }],
    e.minted token now policy, by rw [supersedeLast_append], ?_, hsub.append_right _⟩
  simp only [SessionEntry.pushed, he, supersedeLast_append]

end SessionEntry

end SessionBroker
