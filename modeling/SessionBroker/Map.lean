/-
  The session map (`SessionMap` in `session.rs`) and its operations, each taken
  as one atomic call.

  * `sessions` and `index` are the two concurrent maps; `queue` is everything
    `persist` has sent to the writer, and `events` everything the observer has
    been told, oldest first;
  * an iteration over the sessions takes the order in which they are visited
    as an argument: the concurrent map promises none.  A sid that is not in
    the map is skipped;
  * `SessionCommand` is the part of the writer's `Command` that the session
    map emits.
-/
import SessionBroker.Entry
import Mathlib.Data.List.Sort
import Mathlib.Logic.Function.Basic
import Mathlib.Tactic.Simps.Basic

namespace SessionBroker

/-! ## Commands -/

/-- `SessionRow` (`store/repo.rs`). -/
structure SessionRow where
  sid : Sid
  custodyId : CustodyId
  sub : String
  currentGen : ℕ
  idleExp : Timestamp
  absoluteExp : Timestamp
  status : SessionStatus
  createdAt : Timestamp
  metaText : Option String
deriving DecidableEq, Repr

/-- The write-behind mutations of sessions and generations (`Command`,
    `store/writer.rs`). -/
inductive SessionCommand where
  | insertSession (row : SessionRow)
  | updateSessionProgress (sid : Sid) (currentGen : ℕ) (idleExp : Timestamp)
  | tombstoneSession (sid : Sid) (now : Timestamp)
  | insertGeneration (sid : Sid) (genNo : ℕ) (hash : TokenHash) (createdAt activeUntil : Timestamp)
  | supersedeGeneration (hash : TokenHash) (supersededAt : Timestamp)
  | deleteGeneration (hash : TokenHash)
deriving DecidableEq, Repr

/-- The hash a command brings to the generation table. -/
def SessionCommand.issues : SessionCommand → Option TokenHash
  | insertGeneration _ _ hash _ _ => some hash
  | _ => none

/-- The sid a command brings to the session table. -/
def SessionCommand.creates : SessionCommand → Option Sid
  | insertSession row => some row.sid
  | _ => none

/-! ## The map -/

structure SessionMap where
  policy : SessionPolicy
  sessions : Sid → Option SessionEntry
  index : TokenHash → Option Sid
  queue : List SessionCommand
  events : List SessionEvent

namespace SessionMap

/-- `SessionMap::with_durability`. -/
def withDurability (policy : SessionPolicy) : SessionMap :=
  ⟨policy, fun _ => none, fun _ => none, [], []⟩

/-- `SessionMap::persist`. -/
@[simps]
def persist (m : SessionMap) (cmd : SessionCommand) : SessionMap :=
  { m with queue := m.queue ++ [cmd] }

/-- `SessionMap::announce`. -/
@[simps]
def announce (m : SessionMap) (event : SessionEvent) : SessionMap :=
  { m with events := m.events ++ [event] }

/-- `sessions.insert`, and what a mutable guard writes back. -/
@[simps]
def setEntry (m : SessionMap) (sid : Sid) (e : SessionEntry) : SessionMap :=
  { m with sessions := Function.update m.sessions sid (some e) }

/-- `sessions.remove`. -/
@[simps]
def removeEntry (m : SessionMap) (sid : Sid) : SessionMap :=
  { m with sessions := Function.update m.sessions sid none }

/-- `index.insert`. -/
@[simps]
def indexInsert (m : SessionMap) (hash : TokenHash) (sid : Sid) : SessionMap :=
  { m with index := Function.update m.index hash (some sid) }

/-- `index.remove`. -/
@[simps]
def indexRemove (m : SessionMap) (hash : TokenHash) : SessionMap :=
  { m with index := Function.update m.index hash none }

/-- `SessionMap::apply`: fix up the token index and enqueue the same changes. -/
def apply (m : SessionMap) (effects : IndexEffects) (sid : Sid) : SessionMap :=
  let m := match effects.added with
    | none => m
    | some g => (m.indexInsert g.tokenHash sid).persist
        (.insertGeneration sid g.genNo g.tokenHash g.createdAt g.activeUntil)
  let m := match effects.superseded with
    | none => m
    | some (hash, at_) => m.persist (.supersedeGeneration hash at_)
  effects.purged.foldl (fun m hash => (m.indexRemove hash).persist (.deleteGeneration hash)) m

/-- `SessionMap::create`, `token` being the value drawn. -/
def create (m : SessionMap) (sid : Sid) (custody : CustodyId) (sub : String) (token : SessionToken)
    (now : Timestamp) : SessionMap × IssuedCookies :=
  let absoluteExp := now.plusSecs m.policy.absoluteTtlSecs
  let activeUntil := now.plusSecs m.policy.genTtlSecs
  let entry : SessionEntry := {
    sid, custody, sub
    gens := [⟨1, token.hash, now, activeUntil, none⟩]
    currentGen := 1
    currentToken := some token
    idleExp := min (now.plusSecs m.policy.idleTtlSecs) absoluteExp
    absoluteExp
    status := .alive
    tombstonedAt := none
    custodyStatus := .ok
    retired := [] }
  let m := (m.setEntry sid entry).indexInsert token.hash sid
  -- the session before its generation, whose `sid` is a foreign key onto it
  let m := m.persist (.insertSession
    ⟨sid, custody, sub, 1, entry.idleExp, absoluteExp, .alive, now, none⟩)
  let m := m.persist (.insertGeneration sid 1 token.hash now activeUntil)
  (m, ⟨token, entry.sessionMeta, true⟩)

/-- `SessionMap::rehydrate_session`; false for a session without generations. -/
def rehydrateSession (m : SessionMap) (restored : RestoredSession) : SessionMap × Bool :=
  if restored.gens = [] then (m, false)
  else
    let ordered := restored.gens.insertionSort fun g h => g.genNo ≤ h.genNo
    let m := ordered.foldl (fun m g => m.indexInsert g.tokenHash restored.sid) m
    let entry : SessionEntry := {
      sid := restored.sid
      custody := restored.custody
      sub := restored.sub
      gens := ordered
      currentGen := restored.currentGen
      currentToken := none
      idleExp := restored.idleExp
      absoluteExp := restored.absoluteExp
      status := .alive
      tombstonedAt := none
      custodyStatus := .ok
      retired := [] }
    (m.setEntry restored.sid entry, true)

/-- `SessionMap::resolve`. -/
def resolve (m : SessionMap) (hash : TokenHash) (now : Timestamp) : Resolution :=
  match m.index hash with
  | none => .unknown
  | some sid =>
    match m.sessions sid with
    | none => .unknown
    | some e => e.classify hash now m.policy

/-- `SessionMap::meta_for`. -/
def metaFor (m : SessionMap) (hash : TokenHash) : Option SessionMeta :=
  (m.index hash).bind fun sid => (m.sessions sid).map (·.sessionMeta)

/-- `SessionMap::custody_for`. -/
def custodyFor (m : SessionMap) (hash : TokenHash) : Option CustodyId :=
  (m.index hash).bind fun sid => (m.sessions sid).map (·.custody)

/-- `SessionMap::refresh`, `token` being the value a mint would draw. -/
def refresh (m : SessionMap) (hash : TokenHash) (token : SessionToken) (now : Timestamp) :
    SessionMap × Except RefreshDenied IssuedCookies :=
  match m.index hash with
  | none => (m, .error .unknown)
  | some sid =>
    match m.sessions sid with
    | none => (m, .error .unknown)
    | some e =>
      match e.refresh hash token now m.policy with
      | .error denied => (m, .error denied)
      | .ok (e', issued, effects) =>
        let m := (m.setEntry sid e').apply effects sid
        (m.persist (.updateSessionProgress sid e'.currentGen e'.idleExp), .ok issued)

/-- `SessionMap::tombstone_session_with_reason`. -/
def tombstoneSessionWithReason (m : SessionMap) (sid : Sid) (now : Timestamp)
    (reason : KillReason) : SessionMap × Bool :=
  match m.sessions sid with
  | none => (m, false)
  | some e =>
    if e.status = .alive then
      let m := m.setEntry sid { e with
        status := .tombstoned
        tombstonedAt := some now
        currentToken := none }
      ((m.persist (.tombstoneSession sid now)).announce (.sessionKilled sid reason), true)
    else (m, false)

/-- `SessionMap::tombstone_session`. -/
def tombstoneSession (m : SessionMap) (sid : Sid) (now : Timestamp) : SessionMap × Bool :=
  m.tombstoneSessionWithReason sid now .loggedOut

/-- The sids `tombstone_by_custody` collects before it kills any. -/
def backedBy (m : SessionMap) (order : List Sid) (custody : CustodyId) : List Sid :=
  order.filter fun sid => (m.sessions sid).any fun e =>
    decide (e.custody = custody ∧ e.status = .alive)

/-- `SessionMap::tombstone_by_custody`: the number of sessions killed. -/
def tombstoneByCustody (m : SessionMap) (order : List Sid) (custody : CustodyId)
    (now : Timestamp) : SessionMap × ℕ :=
  (m.backedBy order custody).foldl (fun r sid =>
    let killed := r.1.tombstoneSessionWithReason sid now .upstreamRevoked
    (killed.1, if killed.2 then r.2 + 1 else r.2)) (m, 0)

/-- One visit of the loop in `set_custody_status`. -/
def touchCustody (custody : CustodyId) (status : CustodyStatus)
    (r : SessionMap × ℕ × List Sid) (sid : Sid) : SessionMap × ℕ × List Sid :=
  match r.1.sessions sid with
  | none => r
  | some e =>
    if e.custody = custody then
      (r.1.setEntry sid { e with custodyStatus := status }, r.2.1 + 1,
        if e.custodyStatus = status then r.2.2 else r.2.2 ++ [sid])
    else r

/-- `SessionMap::set_custody_status`: the number of sessions touched. -/
def setCustodyStatus (m : SessionMap) (order : List Sid) (custody : CustodyId)
    (status : CustodyStatus) : SessionMap × ℕ :=
  let r := order.foldl (touchCustody custody status) (m, 0, [])
  (r.2.2.foldl (fun m sid => m.announce (.custodyChanged sid status)) r.1, r.2.1)

/-- The loop state of `sweep`: the map, the generations retired so far and the
    sessions found collectible. -/
structure SweepState where
  map : SessionMap
  retired : ℕ
  removable : List Sid

/-- One visit of the first loop of `sweep`. -/
def sweepVisit (now : Timestamp) (s : SweepState) (sid : Sid) : SweepState :=
  match s.map.sessions sid with
  | none => s
  | some e =>
    if e.collectible now s.map.policy then { s with removable := s.removable ++ [sid] }
    else
      let r := e.reapGenerations now s.map.policy
      { s with
        map := (s.map.setEntry sid r.1).apply r.2 sid
        retired := s.retired + (e.gens.length - r.1.gens.length) }

/-- One removal of the second loop of `sweep`. -/
def sweepRemove (r : SessionMap × ℕ) (sid : Sid) : SessionMap × ℕ :=
  match r.1.sessions sid with
  | none => r
  | some e => (e.allHashes.foldl indexRemove (r.1.removeEntry sid), r.2 + 1)

/-- `SessionMap::sweep`: (sessions removed, generations retired). -/
def sweep (m : SessionMap) (order : List Sid) (now : Timestamp) : SessionMap × ℕ × ℕ :=
  let s := order.foldl (sweepVisit now) ⟨m, 0, []⟩
  let r := s.removable.foldl sweepRemove (s.map, 0)
  (r.1, r.2, s.retired)

/-! ## Index maintenance, solved -/

end SessionMap

/-- What holds of every entry of a map after one of them was replaced. -/
theorem forall_update {α β : Type*} [DecidableEq α] {f : α → Option β} {a : α} {o : Option β}
    {P : α → β → Prop} (h : ∀ x b, f x = some b → P x b) (ho : ∀ b, o = some b → P a b) :
    ∀ x b, Function.update f a o x = some b → P x b := by
  intro x b hx
  rw [Function.update_apply] at hx
  split_ifs at hx with ha
  · subst ha; exact ho b hx
  · exact h x b hx

/-- The commands `apply` enqueues for these effects, in order. -/
def IndexEffects.commands (effects : IndexEffects) (sid : Sid) : List SessionCommand :=
  (effects.added.toList.map fun g =>
    .insertGeneration sid g.genNo g.tokenHash g.createdAt g.activeUntil) ++
  (effects.superseded.toList.map fun p => .supersedeGeneration p.1 p.2) ++
  effects.purged.map .deleteGeneration

@[simp] theorem IndexEffects.commands_empty (sid : Sid) :
    IndexEffects.commands {} sid = [] := rfl

@[simp] theorem IndexEffects.filterMap_issues (effects : IndexEffects) (sid : Sid) :
    (effects.commands sid).filterMap SessionCommand.issues =
      effects.added.toList.map (·.tokenHash) := by
  obtain ⟨added, superseded, purged⟩ := effects
  cases added <;> cases superseded <;>
    simp [commands, SessionCommand.issues]

@[simp] theorem IndexEffects.filterMap_creates (effects : IndexEffects) (sid : Sid) :
    (effects.commands sid).filterMap SessionCommand.creates = [] := by
  obtain ⟨added, superseded, purged⟩ := effects
  cases added <;> cases superseded <;>
    simp [commands, SessionCommand.creates]

/-- The index after `apply`, hash by hash. -/
def IndexEffects.index (effects : IndexEffects) (sid : Sid) (index : TokenHash → Option Sid)
    (hash : TokenHash) : Option Sid :=
  if hash ∈ effects.purged then none
  else if ∃ g ∈ effects.added, g.tokenHash = hash then some sid
  else index hash

namespace SessionMap

theorem foldl_purge (hashes : List TokenHash) (m : SessionMap) :
    hashes.foldl (fun m hash => (m.indexRemove hash).persist (.deleteGeneration hash)) m =
      { m with
        index := fun hash => if hash ∈ hashes then none else m.index hash
        queue := m.queue ++ hashes.map .deleteGeneration } := by
  induction hashes generalizing m with
  | nil => simp
  | cons h hashes ih =>
    rw [List.foldl_cons, ih]
    simp only [persist, indexRemove, List.map_cons, List.append_assoc, List.singleton_append,
      List.mem_cons, mk.injEq, true_and, and_true]
    funext hash
    by_cases hh : hash = h <;> by_cases hm : hash ∈ hashes <;> simp [hh, hm]

/-- **`apply`.** -/
theorem apply_eq (m : SessionMap) (effects : IndexEffects) (sid : Sid) :
    m.apply effects sid =
      { m with
        index := effects.index sid m.index
        queue := m.queue ++ effects.commands sid } := by
  obtain ⟨added, superseded, purged⟩ := effects
  rw [apply, foldl_purge]
  rcases added with _ | g <;> rcases superseded with _ | p <;>
    simp [IndexEffects.commands, IndexEffects.index, funext_iff, Function.update_apply, eq_comm]

@[simp] theorem apply_policy (m : SessionMap) (effects : IndexEffects) (sid : Sid) :
    (m.apply effects sid).policy = m.policy := by rw [apply_eq]

@[simp] theorem apply_sessions (m : SessionMap) (effects : IndexEffects) (sid : Sid) :
    (m.apply effects sid).sessions = m.sessions := by rw [apply_eq]

@[simp] theorem apply_events (m : SessionMap) (effects : IndexEffects) (sid : Sid) :
    (m.apply effects sid).events = m.events := by rw [apply_eq]

@[simp] theorem apply_index (m : SessionMap) (effects : IndexEffects) (sid : Sid) :
    (m.apply effects sid).index = effects.index sid m.index := by rw [apply_eq]

@[simp] theorem apply_queue (m : SessionMap) (effects : IndexEffects) (sid : Sid) :
    (m.apply effects sid).queue = m.queue ++ effects.commands sid := by rw [apply_eq]

/-- Removing hashes from the index one by one. -/
theorem foldl_indexRemove (hashes : List TokenHash) (m : SessionMap) :
    hashes.foldl indexRemove m =
      { m with index := fun hash => if hash ∈ hashes then none else m.index hash } := by
  induction hashes generalizing m with
  | nil => simp
  | cons h hashes ih =>
    rw [List.foldl_cons, ih]
    simp only [indexRemove, List.mem_cons, mk.injEq, true_and, and_true]
    funext hash
    by_cases hh : hash = h <;> by_cases hm : hash ∈ hashes <;> simp [hh, hm]

end SessionMap

end SessionBroker
