/-
  Concurrent refreshes and the tables (`refresh`, `apply` in `session.rs`).

  `refresh` changes the entry under its lock and then, without it, fixes up the
  index and enqueues its commands one by one.

  * A `Racing` state is the map and what the calls still have to do that are
    past the lock; one turn is a call up to the release of its lock, or the
    next act of one that is past it;
  * `perform_afterLock`: the acts of one call, undisturbed, are the rest of the
    call;
  * `Conflicts`: the commands on one row whose order matters;
  * `refreshes_converge`: while no command is enqueued ahead of one that it is
    in conflict with and that belongs to an earlier lock, the tables come to
    say what the map says.
-/
import SessionBroker.Lib.Reorder
import SessionBroker.Lib.Table
import SessionBroker.Sync

namespace SessionBroker

open Bounded Logs Runs

/-! ## Past the lock -/

/-- What a call does after the release of the entry lock. -/
inductive Act where
  | indexInsert (hash : TokenHash) (sid : Sid)
  | indexRemove (hash : TokenHash)
  | persist (cmd : SessionCommand)
deriving DecidableEq, Repr

def Act.perform (m : SessionMap) : Act → SessionMap
  | indexInsert hash sid => m.indexInsert hash sid
  | indexRemove hash => m.indexRemove hash
  | persist cmd => m.persist cmd

def Act.command : Act → Option SessionCommand
  | persist cmd => some cmd
  | _ => none

/-- `SessionMap::apply`. -/
def IndexEffects.acts (effects : IndexEffects) (sid : Sid) : List Act :=
  (effects.added.toList.flatMap fun g => [.indexInsert g.tokenHash sid,
    .persist (.insertGeneration sid g.genNo g.tokenHash g.createdAt g.activeUntil)]) ++
  (effects.superseded.toList.map fun p => .persist (.supersedeGeneration p.1 p.2)) ++
  effects.purged.flatMap fun hash => [.indexRemove hash, .persist (.deleteGeneration hash)]

/-- `refresh` after `drop(entry)`. -/
def SessionEntry.afterLock (e : SessionEntry) (sid : Sid) (effects : IndexEffects) : List Act :=
  effects.acts sid ++ [.persist (.updateSessionProgress sid e.currentGen e.idleExp)]

/-! ## Turns -/

/-- The calls that are past the lock, in the order of their locks, and what each
    has still to do. -/
structure Racing where
  map : SessionMap
  calls : List (List Act)

inductive Turn where
  | lock (hash : TokenHash) (token : SessionToken) (now : Timestamp)
  | act (i : ℕ)
deriving DecidableEq

/-- The call that a turn begins. -/
def Turn.begins : Turn → Option Op
  | lock hash token now => some (.refresh hash token now)
  | act _ => none

namespace Racing

/-- `refresh` up to `drop(entry)`. -/
def lock (s : Racing) (hash : TokenHash) (token : SessionToken) (now : Timestamp) : Racing :=
  match s.map.index hash with
  | none => s
  | some sid =>
    match s.map.sessions sid with
    | none => s
    | some e =>
      match e.refresh hash token now s.map.policy with
      | .error _ => s
      | .ok (e', _, effects) => ⟨s.map.setEntry sid e', s.calls ++ [e'.afterLock sid effects]⟩

/-- The next act of a call. -/
def act (s : Racing) (i : ℕ) : Racing :=
  match s.calls[i]? with
  | some (a :: rest) => ⟨a.perform s.map, s.calls.set i rest⟩
  | _ => s

def turn (s : Racing) : Turn → Racing
  | .lock hash token now => s.lock hash token now
  | .act i => s.act i

/-- The commands that calls have still to enqueue. -/
def commands (calls : List (List Act)) : List SessionCommand :=
  calls.flatMap fun call => call.filterMap Act.command

/-- Every call is over. -/
def Done (s : Racing) : Prop := ∀ call ∈ s.calls, call = []

end Racing

/-! ## Order -/

/-- The row that a command writes. -/
def SessionCommand.target : SessionCommand → Sid ⊕ TokenHash
  | insertSession row => .inl row.sid
  | updateSessionProgress sid _ _ | tombstoneSession sid _ => .inl sid
  | insertGeneration _ _ hash _ _ | supersedeGeneration hash _ | deleteGeneration hash => .inr hash

/-- The commands on one row, of which a deletion comes to the same on either
    side of a superseding or of another deletion. -/
def SessionCommand.Conflicts : SessionCommand → SessionCommand → Prop
  | deleteGeneration _, deleteGeneration _ | deleteGeneration _, supersedeGeneration _ _
  | supersedeGeneration _ _, deleteGeneration _ => False
  | c, c' => c.target = c'.target

/-- No call enqueues a command while one that was locked before it has still to
    enqueue a command in conflict. -/
def Racing.Ordered (s : Racing) : Turn → Prop
  | .lock .. => True
  | .act i =>
    match s.calls[i]? with
    | some (.persist cmd :: _) => ∀ cmd' ∈ commands (s.calls.take i), ¬cmd'.Conflicts cmd
    | _ => True

instance (c c' : SessionCommand) : Decidable (c.Conflicts c') := by
  cases c <;> cases c' <;> dsimp only [SessionCommand.Conflicts] <;> infer_instance

instance (s : Racing) : ∀ t, Decidable (s.Ordered t)
  | .lock .. => isTrue trivial
  | .act i =>
    match h : s.calls[i]? with
    | some (.persist cmd :: _) => decidable_of_iff
        (∀ cmd' ∈ Racing.commands (s.calls.take i), ¬cmd'.Conflicts cmd) (by simp [Racing.Ordered, h])
    | some (.indexInsert .. :: _) | some (.indexRemove .. :: _) | some [] | none =>
        isTrue (by simp [Racing.Ordered, h])

instance (s : Racing) : Decidable s.Done := inferInstanceAs (Decidable (∀ call ∈ s.calls, call = []))

/-! ## One row of the tables -/

/-- What one command makes of the row of a generation. -/
def SessionCommand.writeGeneration (hash : TokenHash) (row : Option GenerationRow) :
    SessionCommand → Option GenerationRow
  | insertGeneration sid genNo hash' createdAt activeUntil =>
    if hash' = hash then some ⟨hash', sid, genNo, createdAt, activeUntil, none⟩ else row
  | supersedeGeneration hash' supersededAt =>
    if hash' = hash then row.map fun g => { g with supersededAt := some supersededAt } else row
  | deleteGeneration hash' => if hash' = hash then none else row
  | _ => row

/-- The row of a generation in the table. -/
def Tables.generationOf (t : Tables) (hash : TokenHash) : Option GenerationRow :=
  t.generation.find? fun g => g.tokenHash = hash

theorem Tables.Keyed.generationOf_eq {t : Tables} (h : t.Keyed) {g : GenerationRow}
    (hg : g ∈ t.generation) : t.generationOf g.tokenHash = some g :=
  Table.UniqueOn.find?_eq h.generation hg

theorem Tables.generationOf_applyCommand {t t' : Tables} {c : SessionCommand} (hash : TokenHash)
    (h : t.applyCommand c = some t') :
    t'.generationOf hash = c.writeGeneration hash (t.generationOf hash) := by
  cases c with
  | insertSession row =>
    simp only [applyCommand, insertSession] at h
    split_ifs at h
    obtain ⟨c, -, rfl⟩ := Option.map_eq_some_iff.1 h
    rfl
  | updateSessionProgress sid currentGen idleExp => cases h; rfl
  | tombstoneSession sid now => cases h; rfl
  | insertGeneration sid genNo hash' createdAt activeUntil =>
    simp only [applyCommand, insertGeneration] at h
    split_ifs at h with hany
    cases h
    simp only [generationOf, List.find?_append, SessionCommand.writeGeneration, List.find?_singleton]
    by_cases hx : hash' = hash
    · have hno : t.generation.find? (fun g => g.tokenHash = hash) = none := by
        rw [List.find?_eq_none]
        intro g hg hgh
        exact hany (List.any_eq_true.2 ⟨g, hg, by rw [hx]; exact hgh⟩)
      simp [hno, hx]
    · simp [hx]
  | supersedeGeneration hash' supersededAt =>
    cases h
    have hupdate : (t.updateGenerationSuperseded hash' supersededAt).generation =
        Table.updateWhere (fun g => g.tokenHash = hash')
          (fun g => { g with supersededAt := some supersededAt }) t.generation := by
      simp [updateGenerationSuperseded, Table.updateWhere]
    have hkept : ∀ g : GenerationRow,
        { g with supersededAt := some supersededAt }.tokenHash = g.tokenHash := fun _ => rfl
    rw [generationOf, hupdate, Table.find?_updateWhere
      (f := fun g : GenerationRow => { g with supersededAt := some supersededAt }) hkept,
      ← generationOf, SessionCommand.writeGeneration]
    cases hg : t.generationOf hash with
    | none => simp
    | some g =>
      have hhash : g.tokenHash = hash := by simpa using List.find?_some hg
      simp only [Option.map_some, hhash, decide_eq_true_eq, eq_comm (a := hash)]
      split_ifs <;> rfl
  | deleteGeneration hash' =>
    cases h
    simp only [generationOf, deleteGeneration, SessionCommand.writeGeneration, List.find?_filter]
    by_cases hx : hash' = hash
    · simp [hx]
    · rw [if_neg hx]
      congr 1
      funext g
      by_cases hg : g.tokenHash = hash
      · simp [hg, Ne.symm hx]
      · simp [hg]

/-- **The table holds the row the commands leave.** -/
theorem Tables.generationOf_applyAll {cmds : List SessionCommand} {t t' : Tables} (hash : TokenHash)
    (ha : t.applyAll cmds = some t') :
    t'.generationOf hash = cmds.foldl (SessionCommand.writeGeneration hash) (t.generationOf hash) := by
  induction cmds generalizing t with
  | nil => cases ha; rfl
  | cons c cmds ih =>
    rw [Tables.applyAll_cons, Option.bind_eq_some_iff] at ha
    obtain ⟨t₁, h₁, h₂⟩ := ha
    rw [ih h₂, generationOf_applyCommand hash h₁, List.foldl_cons]

theorem SessionCommand.writeRow_comm {c c' : SessionCommand} (h : ¬c.Conflicts c') (sid : Sid)
    (row : Option SessionRow) :
    c'.writeRow sid (c.writeRow sid row) = c.writeRow sid (c'.writeRow sid row) := by
  cases c <;> cases c' <;> simp only [writeRow, Conflicts, target, Sum.inl.injEq] at h ⊢ <;>
    split_ifs <;> simp_all

theorem SessionCommand.writeGeneration_comm {c c' : SessionCommand} (h : ¬c.Conflicts c')
    (hash : TokenHash) (row : Option GenerationRow) :
    c'.writeGeneration hash (c.writeGeneration hash row) =
      c.writeGeneration hash (c'.writeGeneration hash row) := by
  cases c <;> cases c' <;> simp only [writeGeneration, Conflicts, target, Sum.inr.injEq] at h ⊢ <;>
    split_ifs <;> simp_all

/-- A command that goes through on these tables and those that such commands
    make of them, other than a login. -/
def SessionCommand.FitsIn (t : Tables) : SessionCommand → Prop
  | insertSession _ => False
  | insertGeneration sid _ hash _ _ => t.HasRow sid ∧ t.generationOf hash = none
  | _ => True

/-- Only an insert makes a row. -/
theorem SessionCommand.writeGeneration_none {c : SessionCommand} {hash : TokenHash}
    (h : c.issues ≠ some hash) : c.writeGeneration hash none = none := by
  cases c with
  | insertGeneration sid genNo hash' createdAt activeUntil =>
    exact if_neg fun hx => h (congrArg some hx)
  | supersedeGeneration hash' supersededAt => simp [writeGeneration]
  | deleteGeneration hash' => simp [writeGeneration]
  | _ => rfl

theorem SessionCommand.FitsIn.applyCommand {t t' : Tables} {c c' : SessionCommand}
    (h : c'.FitsIn t) (ha : t.applyCommand c = some t')
    (hnew : ∀ hash, c.issues = some hash → c'.issues ≠ some hash) : c'.FitsIn t' := by
  cases c' with
  | insertSession row => exact h
  | insertGeneration sid genNo hash createdAt activeUntil =>
    refine ⟨h.1.applyCommand ha, ?_⟩
    rw [Tables.generationOf_applyCommand hash ha, h.2]
    exact SessionCommand.writeGeneration_none fun hc => hnew hash hc rfl
  | _ => trivial

/-- A log of new generations goes through. -/
theorem Tables.applyAll_isSome {t : Tables} {cmds : List SessionCommand} (h : ∀ c ∈ cmds, c.FitsIn t)
    (hnew : (cmds.filterMap SessionCommand.issues).Nodup) : ∃ t', t.applyAll cmds = some t' := by
  induction cmds generalizing t with
  | nil => exact ⟨t, rfl⟩
  | cons c cmds ih =>
    have hc := h c List.mem_cons_self
    obtain ⟨t₁, h₁⟩ : ∃ t₁, t.applyCommand c = some t₁ := by
      cases c with
      | insertSession row => exact hc.elim
      | insertGeneration sid genNo hash createdAt activeUntil =>
        obtain ⟨⟨r, hr, hsid⟩, hnone⟩ := hc
        have hany : (t.generation.any fun g => g.tokenHash = hash) = false := by
          rw [List.any_eq_false]
          exact List.find?_eq_none.1 hnone
        have hrow : (t.session.any fun r => r.row.sid = sid) = true :=
          List.any_eq_true.2 ⟨r, hr, decide_eq_true hsid⟩
        rw [applyCommand, insertGeneration, if_neg (by rw [hany]; decide), if_pos hrow]
        exact ⟨_, rfl⟩
      | _ => exact ⟨_, rfl⟩
    have hrest : (cmds.filterMap SessionCommand.issues).Nodup :=
      hnew.sublist ((List.sublist_cons_self c cmds).filterMap _)
    have hfits : ∀ c' ∈ cmds, c'.FitsIn t₁ := by
      intro c' hc'
      refine (h c' (List.mem_cons_of_mem _ hc')).applyCommand h₁ fun hash hi hi' => ?_
      rw [List.filterMap_cons_some hi, List.nodup_cons] at hnew
      exact hnew.1 (List.mem_filterMap.2 ⟨c', hc', hi'⟩)
    obtain ⟨t', ht'⟩ := ih hfits hrest
    exact ⟨t', by rw [applyAll_cons, h₁]; exact ht'⟩

/-! ## What the turns do -/

namespace Act

variable (m : SessionMap) (a : Act)

@[simp] theorem perform_sessions : (a.perform m).sessions = m.sessions := by
  cases a <;> rfl

@[simp] theorem perform_policy : (a.perform m).policy = m.policy := by
  cases a <;> rfl

@[simp] theorem perform_queue : (a.perform m).queue = m.queue ++ a.command.toList := by
  cases a <;> simp [perform, command]

end Act

@[simp] theorem SessionEntry.filterMap_afterLock (e : SessionEntry) (sid : Sid)
    (effects : IndexEffects) : (e.afterLock sid effects).filterMap Act.command =
      effects.commands sid ++ [.updateSessionProgress sid e.currentGen e.idleExp] := by
  obtain ⟨added, superseded, purged⟩ := effects
  have hpurged : (purged.flatMap fun hash => [Act.indexRemove hash,
      .persist (.deleteGeneration hash)]).filterMap Act.command =
        purged.map .deleteGeneration := by
    induction purged with
    | nil => rfl
    | cons hash purged ih => simpa [List.filterMap_cons, Act.command] using ih
  cases added <;> cases superseded <;>
    simp [afterLock, IndexEffects.acts, IndexEffects.commands, hpurged, List.filterMap_cons, Act.command]

/-- **Undisturbed**, the acts of a call are the rest of the call. -/
theorem SessionEntry.perform_afterLock (m : SessionMap) (e : SessionEntry) (sid : Sid)
    (effects : IndexEffects) :
    (e.afterLock sid effects).foldl Act.perform (m.setEntry sid e) = m.commit sid e effects := by
  obtain ⟨added, superseded, purged⟩ := effects
  have hpurged : ∀ m : SessionMap, (purged.flatMap fun hash => [Act.indexRemove hash,
      .persist (.deleteGeneration hash)]).foldl Act.perform m =
        purged.foldl (fun m hash => (m.indexRemove hash).persist (.deleteGeneration hash)) m := by
    induction purged with
    | nil => exact fun _ => rfl
    | cons hash purged ih => exact fun m => ih _
  cases added <;> cases superseded <;>
    simp [afterLock, IndexEffects.acts, SessionMap.commit, SessionMap.apply, hpurged, Act.perform]

namespace Racing

variable {s : Racing}

theorem lock_cases (s : Racing) (hash : TokenHash) (token : SessionToken) (now : Timestamp) :
    s.lock hash token now = s ∨ ∃ sid e e' cookies effects, s.map.sessions sid = some e ∧
      e.refresh hash token now s.map.policy = .ok (e', cookies, effects) ∧
      s.lock hash token now = ⟨s.map.setEntry sid e', s.calls ++ [e'.afterLock sid effects]⟩ := by
  unfold lock
  cases s.map.index hash with
  | none => exact .inl rfl
  | some sid =>
    dsimp only
    cases he : s.map.sessions sid with
    | none => exact .inl rfl
    | some e =>
      dsimp only
      cases hr : e.refresh hash token now s.map.policy with
      | error reason => exact .inl rfl
      | ok r => exact .inr ⟨sid, e, r.1, r.2.1, r.2.2, he, hr, rfl⟩

theorem act_cases (s : Racing) (i : ℕ) : s.act i = s ∨ ∃ first a rest after,
    s.calls[i]? = some (a :: rest) ∧ s.calls.take i = first ∧
      s.calls = first ++ (a :: rest) :: after ∧
      s.act i = ⟨a.perform s.map, first ++ rest :: after⟩ := by
  unfold act
  cases hcall : s.calls[i]? with
  | none => exact .inl rfl
  | some call =>
    cases call with
    | nil => exact .inl rfl
    | cons a rest =>
      obtain ⟨hi, hget⟩ := List.getElem?_eq_some_iff.1 hcall
      refine .inr ⟨_, a, rest, s.calls.drop (i + 1), rfl, rfl, ?_, ?_⟩
      · rw [← hget, List.getElem_cons_drop, List.take_append_drop]
      · dsimp only
        rw [List.set_eq_take_append_cons_drop, if_pos hi]

@[simp] theorem commands_append (calls calls' : List (List Act)) :
    commands (calls ++ calls') = commands calls ++ commands calls' :=
  List.flatMap_append

@[simp] theorem commands_cons (call : List Act) (calls : List (List Act)) :
    commands (call :: calls) = call.filterMap Act.command ++ commands calls :=
  List.flatMap_cons

@[simp] theorem commands_nil : commands [] = [] := rfl

theorem commands_done (h : s.Done) : commands s.calls = [] := by
  rw [commands, List.flatMap_eq_nil_iff]
  intro call hcall
  rw [h call hcall]
  rfl

end Racing

/-! ## One call after the other -/

theorem Fresh.sublist {ops ops' : List Op} (h : Fresh ops) (hs : ops'.Sublist ops) : Fresh ops' :=
  ⟨h.1.sublist (hs.filterMap _), h.2.sublist (hs.filterMap _)⟩

/-- A command that a refresh of a session of `m` sends. -/
def SessionCommand.SentBy (m : SessionMap) : SessionCommand → Prop
  | insertSession _ | tombstoneSession _ _ => False
  | insertGeneration sid _ _ _ _ => m.sessions sid ≠ none
  | _ => True

theorem IndexEffects.commands_sentBy {m : SessionMap} {sid : Sid} (h : m.sessions sid ≠ none)
    (effects : IndexEffects) : ∀ c ∈ effects.commands sid, c.SentBy m := by
  intro c hc
  simp only [commands, List.mem_append, List.mem_map] at hc
  rcases hc with (⟨g, -, rfl⟩ | ⟨p, -, rfl⟩) | ⟨hash, -, rfl⟩
  · exact h
  · trivial
  · trivial

/-- The sessions are those of the calls one after the other, first `before` and
    then `done`, and the commands of `done` are sent or still to be sent, in an
    order that makes no difference. -/
structure Racing.Follows (s : Racing) (policy : SessionPolicy) (before done : List Op) : Prop where
  sessions : s.map.sessions = (SessionMap.runs policy (before ++ done)).sessions
  known : ∀ sid, s.map.sessions sid ≠ none → (SessionMap.runs policy before).sessions sid ≠ none
  log : ∃ cmds sent, (SessionMap.runs policy (before ++ done)).queue =
      (SessionMap.runs policy before).queue ++ cmds ∧
    s.map.queue = (SessionMap.runs policy before).queue ++ sent ∧
    Reordered SessionCommand.Conflicts cmds (sent ++ Racing.commands s.calls) ∧
    ∀ c ∈ cmds, c.SentBy (SessionMap.runs policy before)
  policy : s.map.policy = policy

namespace Racing

variable {s : Racing} {policy : SessionPolicy} {before done : List Op}

/-- No call is past its lock. -/
def start (policy : SessionPolicy) (before : List Op) : Racing := ⟨.runs policy before, []⟩

theorem follows_start (hf : Fresh before) : (start policy before).Follows policy before [] where
  sessions := by rw [List.append_nil]; rfl
  policy := (SessionMap.kept_run policy hf).policy
  known _ h := h
  log := ⟨[], [], by simp, by simp [start], .refl _, by simp⟩

/-- What a call does under its lock it does as one of the calls in order. -/
theorem Follows.lock (h : s.Follows policy before done) (hf : Fresh (before ++ done))
    (hash : TokenHash) (token : SessionToken) (now : Timestamp) :
    (s.lock hash token now).Follows policy before done ∨
      (s.lock hash token now).Follows policy before (done ++ [.refresh hash token now]) := by
  rcases s.lock_cases hash token now with heq | ⟨sid, e, e', cookies, effects, he, hr, heq⟩
  · rw [heq]
    exact .inl h
  refine .inr ?_
  rw [heq]
  have hk := SessionMap.kept_run policy hf
  have he₀ : (SessionMap.runs policy (before ++ done)).sessions sid = some e := h.sessions ▸ he
  obtain ⟨-, g, hg, hhash⟩ := SessionEntry.mem_of_refreshable (SessionEntry.refresh_cases hr).1
  have hheld : hash ∈ e.allHashes :=
    List.mem_append_left _ (hhash ▸ List.mem_map_of_mem hg)
  have hindex := (hk.wf.index.mem he₀).2 hheld
  rw [h.policy, ← hk.policy] at hr
  have hstep : SessionMap.runs policy (before ++ (done ++ [.refresh hash token now])) =
      (SessionMap.runs policy (before ++ done)).commit sid e' effects := by
    rw [← List.append_assoc, SessionMap.runs, run_concat, ← SessionMap.runs]
    simp [SessionMap.step, SessionMap.call, SessionMap.refresh, hindex, he₀, hr, SessionMap.commit]
  have hknown : (SessionMap.runs policy before).sessions sid ≠ none :=
    h.known sid (by rw [he]; exact Option.some_ne_none e)
  obtain ⟨cmds, sent, hqueue, hsent, hlog, hby⟩ := h.log
  refine ⟨?_, ?_, ⟨cmds ++ (effects.commands sid ++
    [.updateSessionProgress sid e'.currentGen e'.idleExp]), sent, ?_, hsent, ?_, ?_⟩, h.policy⟩
  · rw [hstep, SessionMap.commit_sessions, ← h.sessions]
    rfl
  · intro sid' hsid'
    by_cases hx : sid' = sid
    · exact hx ▸ hknown
    · exact h.known sid' (by simpa [Function.update_of_ne hx] using hsid')
  · rw [hstep, SessionMap.commit_queue, hqueue, List.append_assoc]
  · have hmore := hlog.append_right (effects.commands sid ++
      [.updateSessionProgress sid e'.currentGen e'.idleExp])
    simpa using hmore
  · intro c hc
    rcases List.mem_append.1 hc with hc | hc
    · exact hby c hc
    rcases List.mem_append.1 hc with hc | hc
    · exact IndexEffects.commands_sentBy hknown effects c hc
    · rw [List.mem_singleton.1 hc]
      trivial

/-- An act in order. -/
theorem Follows.act {i : ℕ} (h : s.Follows policy before done) (ho : s.Ordered (.act i)) :
    (s.act i).Follows policy before done := by
  rcases s.act_cases i with heq | ⟨first, a, rest, after, hcall, hfirst, hcalls, heq⟩
  · rw [heq]
    exact h
  rw [heq]
  obtain ⟨cmds, sent, hqueue, hsent, hlog, hby⟩ := h.log
  refine ⟨?_, ?_, ⟨cmds, sent ++ a.command.toList, hqueue, ?_, ?_, hby⟩, ?_⟩
  · rw [← h.sessions]
    exact Act.perform_sessions _ a
  · intro sid hsid
    exact h.known sid (by simpa using hsid)
  · rw [Act.perform_queue, hsent, List.append_assoc]
  · refine hlog.trans ?_
    rw [hcalls]
    cases a with
    | persist cmd =>
      simp only [Ordered, hcall, hfirst] at ho
      have hfront := (Reordered.front ho (rest.filterMap Act.command ++ commands after)).append_left sent
      simpa [List.filterMap_cons, Act.command] using hfront
    | _ =>
      simp only [commands_append, commands_cons, List.filterMap_cons, Act.command, Option.toList_none,
        List.append_nil]
      exact .refl _
  · rw [← h.policy]
    exact Act.perform_policy _ a

/-- **The turns of a run.** -/
theorem follows_run {turns : List Turn} (hf : Fresh (before ++ turns.filterMap Turn.begins))
    (ho : Along turn Ordered (start policy before) turns) :
    ∃ done, done.Sublist (turns.filterMap Turn.begins) ∧
      (run turn (start policy before) turns).Follows policy before done := by
  induction turns using List.reverseRecOn with
  | nil => exact ⟨[], .slnil, follows_start hf.of_append⟩
  | append_singleton turns t ih =>
    rw [along_append] at ho
    rw [List.filterMap_append, ← List.append_assoc] at hf
    obtain ⟨done, hsub, hfollows⟩ := ih hf.of_append ho.1
    rw [run_concat, List.filterMap_append]
    cases t with
    | lock hash token now =>
      have hfresh := hf.of_append.sublist (hsub.append_left before)
      rcases hfollows.lock hfresh hash token now with h | h
      · exact ⟨done, hsub.trans (List.sublist_append_left _ _), h⟩
      · exact ⟨_, hsub.append (.refl _), h⟩
    | act i => exact ⟨done, hsub.trans (List.sublist_append_left _ _), hfollows.act ho.2.1⟩

end Racing

/-! ## The tables -/

/-- The tables say of a session what its entry says. -/
structure SessionEntry.StoredIn (e : SessionEntry) (t : Tables) (sid : Sid) : Prop where
  row : ∃ row, t.rowOf sid = some row ∧ row.currentGen = e.currentGen ∧ row.idleExp = e.idleExp
  known : ∀ g ∈ t.generation, g.sid = sid → g.tokenHash ∈ e.allHashes
  superseded : ∀ g ∈ t.generation, g.sid = sid → ∀ g' ∈ e.gens, g'.tokenHash = g.tokenHash →
    g.supersededAt = g'.supersededAt

/-- In step with the map, and row by row the same. -/
theorem Synced.storedIn {m : SessionMap} {t t' : Tables} (h : Synced m t) (hw : m.Wf)
    (hk : t'.Keyed) (hrow : ∀ sid, t'.rowOf sid = t.rowOf sid)
    (hgen : ∀ hash, t'.generationOf hash = t.generationOf hash) {sid : Sid} {e : SessionEntry}
    (he : m.sessions sid = some e) : e.StoredIn t' sid := by
  obtain ⟨r, hr, hmirrors, hbacked⟩ := h.entry sid e he
  have hsid : r.row.sid = sid := hmirrors.sid.trans (hw.own sid e he)
  have hstored : ∀ g ∈ t'.generation, g.sid = sid → g.toGeneration ∈ t.gensOf sid := by
    intro g hg hs
    have hfind := hk.generationOf_eq hg
    rw [hgen] at hfind
    exact Tables.mem_gensOf.2 ⟨g, List.mem_of_find?_eq_some hfind, hs, rfl⟩
  refine ⟨⟨r.row, ?_, hmirrors.currentGen, hmirrors.idleExp⟩, fun g hg hs => ?_,
    fun g hg hs g' hg' hhash => ?_⟩
  · rw [hrow, ← hsid]
    exact h.keyed.rowOf_eq hr
  · exact hbacked.hashes.mem_iff.1 (List.mem_map_of_mem (f := (·.tokenHash)) (hstored g hg hs))
  · have heq : g' = g.toGeneration := List.inj_on_of_nodup_map (h.keyed.gensOf_nodup sid)
      (hbacked.gens.subset hg') (hstored g hg hs) hhash
    rw [heq]
    rfl

namespace Racing

/-- **Concurrent refreshes converge**, on any number of sessions, as long as no
    call enqueues a command ahead of one in conflict that a call with an earlier
    lock has still to enqueue: when all are over, the queue goes through and
    the tables say of every session what its entry says. -/
theorem refreshes_converge (policy : SessionPolicy) (custody : List CustodyRow) (before : List Op)
    (turns : List Turn) (hf : Fresh (before ++ turns.filterMap Turn.begins))
    (hc : ∀ op ∈ before, op.CustodyOnFile custody)
    (ho : Along turn Ordered (start policy before) turns)
    (hdone : (run turn (start policy before) turns).Done) :
    ∃ t, (Tables.fresh custody).applyAll (run turn (start policy before) turns).map.queue = some t ∧
      ∀ sid e, (run turn (start policy before) turns).map.sessions sid = some e →
        e.StoredIn t sid := by
  obtain ⟨done, hsub, h⟩ := follows_run hf ho
  have hfresh := hf.sublist (hsub.append_left before)
  have hcustody : ∀ op ∈ before ++ done, op.CustodyOnFile custody := by
    intro op hop
    rcases List.mem_append.1 hop with hop | hop
    · exact hc op hop
    · obtain ⟨t, -, ht⟩ := List.mem_filterMap.1 (hsub.subset hop)
      cases t with
      | lock hash token now =>
        cases ht
        trivial
      | act i => cases ht
  have hk := SessionMap.kept_run policy hfresh
  have hk₀ := SessionMap.kept_run policy hf.of_append
  obtain ⟨t₀, ha₀, -, hs₀⟩ := synced_run policy hf.of_append hc
  obtain ⟨t₁, ha₁, -, hs₁⟩ := synced_run policy hfresh hcustody
  obtain ⟨cmds, sent, hqueue, hsent, hlog, hby⟩ := h.log
  rw [commands_done hdone, List.append_nil] at hlog
  rw [hqueue, Tables.applyAll_append, ha₀, Option.bind_some] at ha₁
  have hissued := hk.killings.issued
  rw [SessionMap.issued, hqueue, List.filterMap_append, List.nodup_append] at hissued
  have hnew : (sent.filterMap SessionCommand.issues).Nodup :=
    (hlog.perm.filterMap _).nodup_iff.1 hissued.2.1
  have hfits : ∀ c ∈ sent, c.FitsIn t₀ := by
    intro c hc
    have hmem := hlog.perm.mem_iff.2 hc
    cases c with
    | insertSession row => exact hby _ hmem
    | insertGeneration sid genNo hash createdAt activeUntil =>
      obtain ⟨e, he⟩ := Option.ne_none_iff_exists'.1 (hby _ hmem)
      refine ⟨hs₀.hasRow hk₀.wf he, List.find?_eq_none.2 fun g hg hhash => ?_⟩
      have hold : g.tokenHash ∈ (SessionMap.runs policy before).issued := hs₀.issued g hg
      rw [of_decide_eq_true hhash] at hold
      exact hissued.2.2 hash hold hash (List.mem_filterMap.2 ⟨_, hmem, rfl⟩) rfl
    | _ => trivial
  obtain ⟨t, ha⟩ := Tables.applyAll_isSome hfits hnew
  refine ⟨t, by rw [hsent, Tables.applyAll_append, ha₀, Option.bind_some, ha], fun sid e he => ?_⟩
  rw [h.sessions] at he
  refine hs₁.storedIn hk.wf (hs₀.keyed.applyAll ha) (fun sid => ?_) (fun hash => ?_) he
  · rw [Tables.rowOf_applyAll sid ha, Tables.rowOf_applyAll sid ha₁]
    exact (hlog.foldl_eq (fun _ _ hcc row => SessionCommand.writeRow_comm hcc sid row) _).symm
  · rw [Tables.generationOf_applyAll hash ha, Tables.generationOf_applyAll hash ha₁]
    exact (hlog.foldl_eq (fun _ _ hcc row => SessionCommand.writeGeneration_comm hcc hash row) _).symm

/-- At a concrete run: two refreshes whose commands interleave in order. -/
theorem refreshes_converge_two :
    let before := [Op.create ⟨"s"⟩ ⟨"c"⟩ "alice" .sample1 ⟨0⟩]
    let hash := SessionToken.sample1.hash
    let turns := [.lock hash .sample2 ⟨100⟩, .lock hash .sample3 ⟨130⟩, .act 1, .act 1, .act 0,
      .act 0, .act 1, .act 0, .act 0, .act 1]
    ∃ t, (Tables.fresh [⟨⟨"c"⟩, "p"⟩]).applyAll (run turn (start {} before) turns).map.queue =
        some t ∧
      ∀ sid e, (run turn (start {} before) turns).map.sessions sid = some e → e.StoredIn t sid := by
  intro before hash turns
  have hf : Fresh (before ++ turns.filterMap Turn.begins) := by decide
  have hc : ∀ op ∈ before, op.CustodyOnFile [⟨⟨"c"⟩, "p"⟩] := by simp [before, Op.CustodyOnFile]
  have ho : Along turn Ordered (start {} before) turns := by decide
  have hdone : (run turn (start {} before) turns).Done := by decide
  exact refreshes_converge {} [⟨⟨"c"⟩, "p"⟩] before turns hf hc ho hdone

/-- With the second refresh enqueueing first, the row goes back to the earlier
    generation, and the one it points at is never stored as superseded. -/
theorem refreshes_diverge :
    let before := [Op.create ⟨"s"⟩ ⟨"c"⟩ "alice" .sample1 ⟨0⟩]
    let hash := SessionToken.sample1.hash
    let turns := [.lock hash .sample2 ⟨100⟩, .lock hash .sample3 ⟨130⟩, .act 1, .act 1, .act 1,
      .act 1, .act 0, .act 0, .act 0, .act 0]
    (run turn (start {} before) turns).Done ∧
      ∃ e t, (run turn (start {} before) turns).map.sessions ⟨"s"⟩ = some e ∧
        (Tables.fresh [⟨⟨"c"⟩, "p"⟩]).applyAll (run turn (start {} before) turns).map.queue =
          some t ∧
        e.currentGen = 3 ∧ (t.rowOf ⟨"s"⟩).map (·.currentGen) = some 2 ∧
        (t.rowOf ⟨"s"⟩).map (·.idleExp) ≠ some e.idleExp ∧
        (e.gens.find? (·.tokenHash = SessionToken.sample2.hash)).map (·.supersededAt) =
          some (some ⟨130⟩) ∧
        (t.generationOf SessionToken.sample2.hash).map (·.supersededAt) = some none := by
  refine ⟨by decide, Option.get _ (by decide), Option.get _ (by decide),
    (Option.some_get _).symm, (Option.some_get _).symm, ?_⟩
  decide

end Racing

end SessionBroker
