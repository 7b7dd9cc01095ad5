/-
  Runs of the session map.

  An `Op` is one call with its arguments; `step` performs it and `Reply` is its
  answer.  A call is a sequence of atomic changes (`Move`): `step_moves` says
  so once, and every invariant is then proved for the seven moves.

  A run is fresh if no token value and no sid is drawn twice (`Fresh`), which
  is what 256-bit random values are relied on for.
-/
import SessionBroker.Store
import SessionBroker.Reap
import SessionBroker.Lib.Run

namespace SessionBroker

open Relation Runs

/-! ## Calls -/

inductive Op where
  | create (sid : Sid) (custody : CustodyId) (sub : String) (token : SessionToken) (now : Timestamp)
  | refresh (hash : TokenHash) (token : SessionToken) (now : Timestamp)
  | tombstone (sid : Sid) (reason : KillReason) (now : Timestamp)
  | tombstoneByCustody (order : List Sid) (custody : CustodyId) (now : Timestamp)
  | setCustodyStatus (order : List Sid) (custody : CustodyId) (status : CustodyStatus)
  | sweep (order : List Sid) (now : Timestamp)
deriving DecidableEq

inductive Reply where
  | issued (cookies : IssuedCookies)
  | denied (reason : RefreshDenied)
  | killed (done : Bool)
  | killedAll (count : ℕ)
  | touched (count : ℕ)
  | swept (removed retired : ℕ)
deriving DecidableEq

namespace Op

/-- The clock reading a call is made at. -/
def now : Op → Option Timestamp
  | create _ _ _ _ now | refresh _ _ now | tombstone _ _ now | tombstoneByCustody _ _ now
  | sweep _ now => some now
  | setCustodyStatus .. => none

/-- The token a call draws, should it mint one. -/
def draws : Op → Option TokenHash
  | create _ _ _ token _ | refresh _ token _ => some token.hash
  | _ => none

/-- The sid a login draws. -/
def logsIn : Op → Option Sid
  | create sid .. => some sid
  | _ => none

/-- The clock reading of a call that may kill sessions. -/
def kills : Op → Option Timestamp
  | tombstone _ _ now | tombstoneByCustody _ _ now => some now
  | _ => none

end Op

namespace SessionMap

/-- One call: the map after it, and the answer. -/
def call (m : SessionMap) : Op → SessionMap × Reply
  | .create sid custody sub token now =>
    let r := m.create sid custody sub token now
    (r.1, .issued r.2)
  | .refresh hash token now =>
    match m.refresh hash token now with
    | (m', .ok issued) => (m', .issued issued)
    | (m', .error reason) => (m', .denied reason)
  | .tombstone sid reason now =>
    let r := m.tombstoneSessionWithReason sid now reason
    (r.1, .killed r.2)
  | .tombstoneByCustody order custody now =>
    let r := m.tombstoneByCustody order custody now
    (r.1, .killedAll r.2)
  | .setCustodyStatus order custody status =>
    let r := m.setCustodyStatus order custody status
    (r.1, .touched r.2)
  | .sweep order now =>
    let r := m.sweep order now
    (r.1, .swept r.2.1 r.2.2)

/-- The map after one call. -/
def step (m : SessionMap) (op : Op) : SessionMap := (m.call op).1

/-- The map after a run of calls on a new map. -/
def runs (policy : SessionPolicy) (ops : List Op) : SessionMap :=
  run step (withDurability policy) ops

/-! ## What has been drawn -/

/-- The hashes whose generation has been sent to the writer. -/
def issued (m : SessionMap) : List TokenHash :=
  m.queue.filterMap SessionCommand.issues

/-- The sids whose session has been sent to the writer. -/
def created (m : SessionMap) : List Sid :=
  m.queue.filterMap SessionCommand.creates

/-- A hash this map has seen. -/
def Knows (m : SessionMap) (hash : TokenHash) : Prop := m.index hash ≠ none ∨ hash ∈ m.issued

/-- A sid this map has seen. -/
def KnowsSid (m : SessionMap) (sid : Sid) : Prop := m.sessions sid ≠ none ∨ sid ∈ m.created

end SessionMap

/-- No token value and no sid is drawn twice. -/
def Fresh (ops : List Op) : Prop :=
  (ops.filterMap Op.draws).Nodup ∧ (ops.filterMap Op.logsIn).Nodup

instance (ops : List Op) : Decidable (Fresh ops) := inferInstanceAs (Decidable (_ ∧ _))

/-- Nor is one drawn that the map `m` has seen. -/
def FreshFrom (m : SessionMap) (ops : List Op) : Prop :=
  Fresh ops ∧ (∀ hash ∈ ops.filterMap Op.draws, ¬ m.Knows hash) ∧
    ∀ sid ∈ ops.filterMap Op.logsIn, ¬ m.KnowsSid sid

theorem Fresh.of_append {ops ops' : List Op} (h : Fresh (ops ++ ops')) : Fresh ops := by
  unfold Fresh at h ⊢
  simp only [List.filterMap_append, List.nodup_append] at h
  exact ⟨h.1.1, h.2.1⟩

theorem FreshFrom.of_append {m : SessionMap} {ops ops' : List Op}
    (h : FreshFrom m (ops ++ ops')) : FreshFrom m ops := by
  refine ⟨h.1.of_append, fun hash hh => h.2.1 hash ?_, fun sid hs => h.2.2 sid ?_⟩ <;>
    rw [List.filterMap_append] <;> exact List.mem_append_left _ ‹_›

theorem Fresh.from {ops : List Op} (h : Fresh ops) (policy : SessionPolicy) :
    FreshFrom (.withDurability policy) ops :=
  ⟨h, by simp [SessionMap.Knows, SessionMap.withDurability, SessionMap.issued],
    by simp [SessionMap.KnowsSid, SessionMap.withDurability, SessionMap.created]⟩

/-- A call draws only what the map has not seen. -/
def Op.FreshIn (op : Op) (m : SessionMap) : Prop :=
  (∀ hash, op.draws = some hash → ¬ m.Knows hash) ∧
    ∀ sid, op.logsIn = some sid → ¬ m.KnowsSid sid

/-! ## Cookie values for examples

Four cookie values as `SessionToken::generate` makes them, with their digests. -/

namespace SessionToken

def sample1 : SessionToken :=
  ⟨"AQEBAQEBAQEBAQEBAQEBAQEBAQEBAQEBAQEBAQEBAQE",
    ⟨0x56d5fa7333f6d747db42c239407e5da4c32f4c79f35d092b134fd35a402d9c5c#256⟩⟩

def sample2 : SessionToken :=
  ⟨"AgICAgICAgICAgICAgICAgICAgICAgICAgICAgICAgI",
    ⟨0x6c1d63bbdab437c54368cbbd8886a886a79ad977297e265eebf1f5f5f01533b9#256⟩⟩

def sample3 : SessionToken :=
  ⟨"AwMDAwMDAwMDAwMDAwMDAwMDAwMDAwMDAwMDAwMDAwM",
    ⟨0x83bee072fbd3423f7481fc163821636ad8cfb73faef0dd0581f3979ea0c731b9#256⟩⟩

def sample4 : SessionToken :=
  ⟨"BAQEBAQEBAQEBAQEBAQEBAQEBAQEBAQEBAQEBAQEBAQ",
    ⟨0x4f6a3bb5a6c72d17856be15f62e747ef88df8139f0c38411c8501164c1c1bdd8#256⟩⟩

end SessionToken

/-! ## Moves -/

namespace SessionMap

/-- The entry `create` makes. -/
def newEntry (policy : SessionPolicy) (sid : Sid) (custody : CustodyId) (sub : String)
    (token : SessionToken) (now : Timestamp) : SessionEntry where
  sid := sid
  custody := custody
  sub := sub
  gens := [⟨1, token.hash, now, now.plusSecs policy.genTtlSecs, none⟩]
  currentGen := 1
  currentToken := some token
  idleExp := min (now.plusSecs policy.idleTtlSecs) (now.plusSecs policy.absoluteTtlSecs)
  absoluteExp := now.plusSecs policy.absoluteTtlSecs
  status := .alive
  tombstonedAt := none
  custodyStatus := .ok
  retired := []

/-- The commands of a `create` that made `e`. -/
def newCommands (e : SessionEntry) (now : Timestamp) : List SessionCommand :=
  .insertSession ⟨e.sid, e.custody, e.sub, e.currentGen, e.idleExp, e.absoluteExp, .alive, now,
    none⟩ :: e.gens.map fun g => .insertGeneration e.sid g.genNo g.tokenHash now g.activeUntil

/-- A successful refresh, after the entry lock is released. -/
def commit (m : SessionMap) (sid : Sid) (e : SessionEntry) (effects : IndexEffects) : SessionMap :=
  ((m.setEntry sid e).apply effects sid).persist (.updateSessionProgress sid e.currentGen e.idleExp)

def kill (m : SessionMap) (sid : Sid) (e : SessionEntry) (now : Timestamp) (reason : KillReason) :
    SessionMap :=
  ((m.setEntry sid (e.killed now)).persist (.tombstoneSession sid now)).announce
    (.sessionKilled sid reason)

/-- `sweep` on a session it keeps. -/
def reap (m : SessionMap) (sid : Sid) (e : SessionEntry) (now : Timestamp) : SessionMap :=
  (m.setEntry sid (e.reapGenerations now m.policy).1).apply (e.reapGenerations now m.policy).2 sid

/-- `sweep` on a session it collects. -/
def forget (m : SessionMap) (sid : Sid) (e : SessionEntry) : SessionMap :=
  e.allHashes.foldl indexRemove (m.removeEntry sid)

section
variable (m : SessionMap) (sid : Sid) (e : SessionEntry) (effects : IndexEffects)
  (now : Timestamp) (reason : KillReason) (custody : CustodyId) (sub : String)
  (token : SessionToken)

theorem create_eq : (m.create sid custody sub token now).1 =
    { m with
      sessions := Function.update m.sessions sid
        (some (newEntry m.policy sid custody sub token now))
      index := Function.update m.index token.hash (some sid)
      queue := m.queue ++ newCommands (newEntry m.policy sid custody sub token now) now } := by
  simp [create, setEntry, indexInsert, persist, newEntry, newCommands]

theorem commit_eq : m.commit sid e effects =
    { m with
      sessions := Function.update m.sessions sid (some e)
      index := effects.index sid m.index
      queue := m.queue ++ (effects.commands sid ++
        [.updateSessionProgress sid e.currentGen e.idleExp]) } := by
  simp [commit, apply_eq, setEntry, persist]

theorem reap_eq : m.reap sid e now =
    { m with
      sessions := Function.update m.sessions sid (some (e.reapGenerations now m.policy).1)
      index := (e.reapGenerations now m.policy).2.index sid m.index
      queue := m.queue ++ (e.reapGenerations now m.policy).2.commands sid } := by
  simp [reap, apply_eq, setEntry]

theorem forget_eq : m.forget sid e =
    { m with
      sessions := Function.update m.sessions sid none
      index := fun hash => if hash ∈ e.allHashes then none else m.index hash } := by
  rw [forget, foldl_indexRemove]; rfl

@[simp] theorem create_policy : (m.create sid custody sub token now).1.policy = m.policy := rfl

@[simp] theorem create_sessions : (m.create sid custody sub token now).1.sessions =
    Function.update m.sessions sid (some (newEntry m.policy sid custody sub token now)) := rfl

@[simp] theorem create_index : (m.create sid custody sub token now).1.index =
    Function.update m.index token.hash (some sid) := rfl

@[simp] theorem create_queue : (m.create sid custody sub token now).1.queue =
    m.queue ++ newCommands (newEntry m.policy sid custody sub token now) now := by
  rw [create_eq]

@[simp] theorem create_events : (m.create sid custody sub token now).1.events = m.events := rfl

@[simp] theorem commit_policy : (m.commit sid e effects).policy = m.policy := by rw [commit_eq]

@[simp] theorem commit_sessions : (m.commit sid e effects).sessions =
    Function.update m.sessions sid (some e) := by rw [commit_eq]

@[simp] theorem commit_index : (m.commit sid e effects).index = effects.index sid m.index := by
  rw [commit_eq]

@[simp] theorem commit_queue : (m.commit sid e effects).queue = m.queue ++
    (effects.commands sid ++ [.updateSessionProgress sid e.currentGen e.idleExp]) := by
  rw [commit_eq]

@[simp] theorem commit_events : (m.commit sid e effects).events = m.events := by rw [commit_eq]

@[simp] theorem kill_policy : (m.kill sid e now reason).policy = m.policy := rfl

@[simp] theorem kill_sessions : (m.kill sid e now reason).sessions =
    Function.update m.sessions sid (some (e.killed now)) := rfl

@[simp] theorem kill_index : (m.kill sid e now reason).index = m.index := rfl

@[simp] theorem kill_queue : (m.kill sid e now reason).queue =
    m.queue ++ [.tombstoneSession sid now] := rfl

@[simp] theorem kill_events : (m.kill sid e now reason).events =
    m.events ++ [.sessionKilled sid reason] := rfl

@[simp] theorem reap_policy : (m.reap sid e now).policy = m.policy := by rw [reap_eq]

@[simp] theorem reap_sessions : (m.reap sid e now).sessions =
    Function.update m.sessions sid (some (e.reapGenerations now m.policy).1) := by rw [reap_eq]

@[simp] theorem reap_index : (m.reap sid e now).index =
    (e.reapGenerations now m.policy).2.index sid m.index := by rw [reap_eq]

@[simp] theorem reap_queue : (m.reap sid e now).queue =
    m.queue ++ (e.reapGenerations now m.policy).2.commands sid := by rw [reap_eq]

@[simp] theorem reap_events : (m.reap sid e now).events = m.events := by rw [reap_eq]

@[simp] theorem forget_policy : (m.forget sid e).policy = m.policy := by rw [forget_eq]

@[simp] theorem forget_sessions : (m.forget sid e).sessions =
    Function.update m.sessions sid none := by rw [forget_eq]

@[simp] theorem forget_index : (m.forget sid e).index =
    fun hash => if hash ∈ e.allHashes then none else m.index hash := by rw [forget_eq]

@[simp] theorem forget_queue : (m.forget sid e).queue = m.queue := by rw [forget_eq]

@[simp] theorem forget_events : (m.forget sid e).events = m.events := by rw [forget_eq]

end

end SessionMap

/-- The atomic changes a call is made of. -/
inductive Move : Op → SessionMap → SessionMap → Prop
  | create {m : SessionMap} {sid custody sub token now} :
      ¬ m.Knows token.hash → ¬ m.KnowsSid sid →
      Move (.create sid custody sub token now) m (m.create sid custody sub token now).1
  | refresh {m : SessionMap} {hash token now sid e e' cookies effects} :
      ¬ m.Knows token.hash → m.index hash = some sid → m.sessions sid = some e →
      e.refresh hash token now m.policy = .ok (e', cookies, effects) →
      Move (.refresh hash token now) m (m.commit sid e' effects)
  | kill {m : SessionMap} {op sid e now} (reason) : op.kills = some now →
      m.sessions sid = some e → e.status = .alive → Move op m (m.kill sid e now reason)
  | touch {m : SessionMap} {order custody status sid e} :
      m.sessions sid = some e → e.custody = custody →
      Move (.setCustodyStatus order custody status) m
        (m.setEntry sid { e with custodyStatus := status })
  | announce {m : SessionMap} {order custody status} (sid) :
      Move (.setCustodyStatus order custody status) m (m.announce (.custodyChanged sid status))
  | reap {m : SessionMap} {order now sid e} : m.sessions sid = some e →
      Move (.sweep order now) m (m.reap sid e now)
  | remove {m : SessionMap} {order now sid e} : m.sessions sid = some e →
      e.collectible now m.policy → Move (.sweep order now) m (m.forget sid e)

namespace SessionMap

theorem refresh_moves {m : SessionMap} (hash : TokenHash) {token : SessionToken} (now : Timestamp)
    (hf : ¬ m.Knows token.hash) :
    ReflTransGen (Move (.refresh hash token now)) m (m.refresh hash token now).1 := by
  unfold refresh
  cases hi : m.index hash with
  | none => exact .refl
  | some sid =>
    cases he : m.sessions sid with
    | none => simp only [he]; exact .refl
    | some e =>
      simp only [he]
      rcases hr : e.refresh hash token now m.policy with reason | ⟨e', cookies, effects⟩
      · exact .refl
      · exact .single (.refresh hf hi he hr)

theorem tombstone_moves {m : SessionMap} {op : Op} {sid : Sid} {now : Timestamp}
    {reason : KillReason} (hn : op.kills = some now) :
    ReflTransGen (Move op) m (m.tombstoneSessionWithReason sid now reason).1 := by
  unfold tombstoneSessionWithReason
  cases he : m.sessions sid with
  | none => exact .refl
  | some e =>
    simp only
    split_ifs with ha
    · exact .single (.kill reason hn he ha)
    · exact .refl

theorem tombstoneByCustody_moves {m : SessionMap} {op : Op} {custody : CustodyId}
    {now : Timestamp} (hn : op.kills = some now) (order : List Sid) :
    ReflTransGen (Move op) m (m.tombstoneByCustody order custody now).1 := by
  unfold tombstoneByCustody
  generalize m.backedBy order custody = sids
  suffices h : ∀ r : SessionMap × ℕ, ReflTransGen (Move op) r.1 (sids.foldl (fun r sid =>
      let killed := r.1.tombstoneSessionWithReason sid now .upstreamRevoked
      (killed.1, if killed.2 then r.2 + 1 else r.2)) r).1 from h (m, 0)
  induction sids with
  | nil => exact fun _ => .refl
  | cons sid sids ih =>
    intro r
    rw [List.foldl_cons]
    exact .trans (tombstone_moves hn) (ih (_, _))

theorem setCustodyStatus_moves {m : SessionMap} {custody : CustodyId} {status : CustodyStatus}
    (order : List Sid) :
    ReflTransGen (Move (.setCustodyStatus order custody status)) m
      (m.setCustodyStatus order custody status).1 := by
  have touched : ∀ (sids : List Sid) (r : SessionMap × ℕ × List Sid),
      ReflTransGen (Move (.setCustodyStatus order custody status)) r.1
        (sids.foldl (touchCustody custody status) r).1 := by
    intro sids
    induction sids with
    | nil => exact fun _ => .refl
    | cons sid sids ih =>
      intro r
      refine ReflTransGen.trans ?_ (ih _)
      unfold touchCustody
      cases he : r.1.sessions sid with
      | none => exact .refl
      | some e =>
        by_cases hc : e.custody = custody
        · simp only [if_pos hc]; exact .single (.touch he hc)
        · simp only [if_neg hc]; exact .refl
  have announced : ∀ (sids : List Sid) (m : SessionMap),
      ReflTransGen (Move (.setCustodyStatus order custody status)) m
        (sids.foldl (fun m sid => m.announce (.custodyChanged sid status)) m) := by
    intro sids
    induction sids with
    | nil => exact fun _ => .refl
    | cons sid sids ih => exact fun m => .head (.announce sid) (ih _)
  exact (touched order (m, 0, [])).trans (announced _ _)

/-- The sids are collectible sessions, or gone. -/
def Due (m : SessionMap) (now : Timestamp) (sids : List Sid) : Prop :=
  ∀ sid ∈ sids, ∀ e, m.sessions sid = some e → e.collectible now m.policy

/-- Between its visit and its removal a collectible session is left alone. -/
theorem sweepVisit_due {now : Timestamp} {s : SweepState} (h : s.map.Due now s.removable)
    (sid : Sid) :
    (sweepVisit now s sid).map.Due now (sweepVisit now s sid).removable := by
  unfold sweepVisit
  cases he : s.map.sessions sid with
  | none => exact h
  | some e =>
    by_cases hc : e.collectible now s.map.policy
    · simp only [if_pos hc]
      intro sid' hs' e' he'
      rcases List.mem_append.1 hs' with hs' | hs'
      · exact h sid' hs' e' he'
      · rw [List.mem_singleton] at hs'
        subst hs'
        rw [he] at he'; cases he'; exact hc
    · simp only [if_neg hc]
      intro sid' hs' e' he'
      simp only [apply_sessions, setEntry_sessions, apply_policy, setEntry_policy] at he' ⊢
      by_cases hs : sid' = sid
      · subst hs; exact absurd (h sid' hs' e he) hc
      · rw [Function.update_of_ne hs] at he'; exact h sid' hs' e' he'

theorem sweepVisit_moves {now : Timestamp} (s : SweepState) (order : List Sid) (sid : Sid) :
    ReflTransGen (Move (.sweep order now)) s.map (sweepVisit now s sid).map := by
  unfold sweepVisit
  cases he : s.map.sessions sid with
  | none => exact .refl
  | some e =>
    by_cases hc : e.collectible now s.map.policy
    · simp only [if_pos hc]; exact .refl
    · simp only [if_neg hc]; exact .single (.reap he)

theorem sweepRemove_moves {now : Timestamp} {r : SessionMap × ℕ} (order : List Sid) {sid : Sid}
    (h : ∀ e, r.1.sessions sid = some e → e.collectible now r.1.policy) :
    ReflTransGen (Move (.sweep order now)) r.1 (sweepRemove r sid).1 := by
  unfold sweepRemove
  cases he : r.1.sessions sid with
  | none => exact .refl
  | some e => exact .single (.remove he (h e he))

theorem sweepRemove_due {now : Timestamp} {r : SessionMap × ℕ} {sids : List Sid}
    (h : r.1.Due now sids) (sid : Sid) : (sweepRemove r sid).1.Due now sids := by
  unfold sweepRemove
  cases he : r.1.sessions sid with
  | none => exact h
  | some e =>
    intro sid' hs' e' he'
    simp only [foldl_indexRemove, removeEntry_sessions, removeEntry_policy] at he' ⊢
    by_cases hs : sid' = sid
    · subst hs; simp at he'
    · rw [Function.update_of_ne hs] at he'; exact h sid' hs' e' he'

theorem sweep_moves {m : SessionMap} {now : Timestamp} (order : List Sid) :
    ReflTransGen (Move (.sweep order now)) m (m.sweep order now).1 := by
  have visited : ∀ (sids : List Sid) (s : SweepState), s.map.Due now s.removable →
      ReflTransGen (Move (.sweep order now)) s.map (sids.foldl (sweepVisit now) s).map ∧
        (sids.foldl (sweepVisit now) s).map.Due now (sids.foldl (sweepVisit now) s).removable := by
    intro sids
    induction sids with
    | nil => exact fun s h => ⟨.refl, h⟩
    | cons sid sids ih =>
      intro s h
      obtain ⟨h₁, h₂⟩ := ih _ (sweepVisit_due h sid)
      exact ⟨.trans (sweepVisit_moves s order sid) h₁, h₂⟩
  have removed : ∀ (sids : List Sid) (r : SessionMap × ℕ), r.1.Due now sids →
      ReflTransGen (Move (.sweep order now)) r.1 (sids.foldl sweepRemove r).1 := by
    intro sids
    induction sids with
    | nil => exact fun _ _ => .refl
    | cons sid sids ih =>
      intro r h
      refine .trans (sweepRemove_moves order (h sid List.mem_cons_self)) (ih _ ?_)
      exact fun s hs => sweepRemove_due h sid s (List.mem_cons_of_mem _ hs)
  obtain ⟨h₁, h₂⟩ := visited order ⟨m, 0, []⟩ (by intro sid hs; cases hs)
  exact h₁.trans (removed _ (_, 0) h₂)

/-- A refresh is denied and changes nothing, or commits one session. -/
theorem call_refresh (m : SessionMap) (hash : TokenHash) (token : SessionToken) (now : Timestamp) :
    (∃ reason, m.call (.refresh hash token now) = (m, .denied reason)) ∨
    ∃ sid e e' cookies effects, m.index hash = some sid ∧ m.sessions sid = some e ∧
      e.refresh hash token now m.policy = .ok (e', cookies, effects) ∧
      m.call (.refresh hash token now) = (m.commit sid e' effects, .issued cookies) := by
  cases hi : m.index hash with
  | none => exact Or.inl ⟨.unknown, by simp [call, refresh, hi]⟩
  | some sid =>
    cases he : m.sessions sid with
    | none => exact Or.inl ⟨.unknown, by simp [call, refresh, hi, he]⟩
    | some e =>
      rcases hr : e.refresh hash token now m.policy with reason | ⟨e', cookies, effects⟩
      · exact Or.inl ⟨reason, by simp [call, refresh, hi, he, hr]⟩
      · refine Or.inr ⟨sid, e, e', cookies, effects, rfl, he, hr, ?_⟩
        simp [call, refresh, hi, he, hr, commit]

theorem step_refresh (m : SessionMap) (hash : TokenHash) (token : SessionToken) (now : Timestamp) :
    m.step (.refresh hash token now) = m ∨ ∃ sid e e' cookies effects,
      m.index hash = some sid ∧ m.sessions sid = some e ∧
      e.refresh hash token now m.policy = .ok (e', cookies, effects) ∧
      m.step (.refresh hash token now) = m.commit sid e' effects := by
  rcases m.call_refresh hash token now with ⟨reason, hc⟩ | ⟨sid, e, e', cookies, effects, hi, he, hr, hc⟩
  · exact Or.inl (congrArg Prod.fst hc)
  · exact Or.inr ⟨sid, e, e', cookies, effects, hi, he, hr, congrArg Prod.fst hc⟩

/-- **A call is a sequence of moves.** -/
theorem step_moves {m : SessionMap} {op : Op} (hf : op.FreshIn m) :
    ReflTransGen (Move op) m (m.step op) := by
  cases op with
  | create sid custody sub token now =>
    exact .single (.create (hf.1 _ rfl) (hf.2 _ rfl))
  | refresh hash token now =>
    have h := refresh_moves hash now (hf.1 _ rfl)
    rcases hr : m.refresh hash token now with ⟨m', _ | _⟩ <;> rw [hr] at h <;>
      simpa only [step, call, hr] using h
  | tombstone => exact tombstone_moves rfl
  | tombstoneByCustody => exact tombstoneByCustody_moves rfl _
  | setCustodyStatus => exact setCustodyStatus_moves _
  | sweep => exact sweep_moves _

end SessionMap

/-! ## Fresh runs -/

@[simp] theorem filterMap_issues_new (e : SessionEntry) (now : Timestamp) :
    (SessionMap.newCommands e now).filterMap SessionCommand.issues =
      e.gens.map (·.tokenHash) := by
  simp [SessionMap.newCommands, SessionCommand.issues, List.filterMap_cons, List.filterMap_map,
    Function.comp_def]

@[simp] theorem filterMap_creates_new (e : SessionEntry) (now : Timestamp) :
    (SessionMap.newCommands e now).filterMap SessionCommand.creates = [e.sid] := by
  simp [SessionMap.newCommands, SessionCommand.creates, List.filterMap_map, Function.comp_def]

theorem Move.policy {op : Op} {m m' : SessionMap} (h : Move op m m') : m'.policy = m.policy := by
  cases h <;> simp

/-- A move only appends to the queue. -/
theorem Move.queue {op : Op} {m m' : SessionMap} (h : Move op m m') : m.queue <+: m'.queue := by
  cases h <;> simp

theorem Move.issued {op : Op} {m m' : SessionMap} (h : Move op m m') : m.issued <+: m'.issued :=
  h.queue.filterMap _

theorem Move.knows {op : Op} {m m' : SessionMap} (h : Move op m m') {hash : TokenHash}
    (hk : m'.Knows hash) : m.Knows hash ∨ op.draws = some hash := by
  unfold SessionMap.Knows SessionMap.issued at hk ⊢
  cases h with
  | create =>
    simp only [SessionMap.create_index, SessionMap.create_queue, List.filterMap_append,
      filterMap_issues_new, SessionMap.newEntry, List.map_cons, List.map_nil, List.mem_append,
      List.mem_singleton, Function.update_apply] at hk
    simp only [Op.draws, Option.some.injEq]
    rcases hk with hk | hk | hk
    · split_ifs at hk with hh
      · exact Or.inr hh.symm
      · exact Or.inl (Or.inl hk)
    · exact Or.inl (Or.inr hk)
    · exact Or.inr hk.symm
  | refresh _ hi he hr =>
    have ha := SessionEntry.refresh_added hr
    simp only [SessionMap.commit_index, SessionMap.commit_queue, List.filterMap_append,
      List.mem_append, IndexEffects.filterMap_issues, IndexEffects.index] at hk
    simp only [Op.draws, Option.some.injEq]
    rcases hk with hk | hk | hk | hk
    · split_ifs at hk with h₁ h₂
      · exact absurd rfl hk
      · obtain ⟨g, hg, rfl⟩ := h₂; exact Or.inr (ha g hg).symm
      · exact Or.inl (Or.inl hk)
    · exact Or.inl (Or.inr hk)
    · simp only [List.mem_map, Option.mem_toList] at hk
      obtain ⟨g, hg, rfl⟩ := hk; exact Or.inr (ha g hg).symm
    · simp [SessionCommand.issues] at hk
  | kill => exact Or.inl (by simpa [SessionCommand.issues] using hk)
  | touch | announce => exact Or.inl hk
  | reap he =>
    refine Or.inl ?_
    simp only [SessionMap.reap_index, SessionMap.reap_queue, List.filterMap_append,
      IndexEffects.filterMap_issues, IndexEffects.index, SessionEntry.reap_added] at hk
    refine hk.imp (fun hk => ?_) (fun hk => by simpa using hk)
    split_ifs at hk with h₁ h₂
    · exact absurd rfl hk
    · simp at h₂
    · exact hk
  | remove =>
    simp only [SessionMap.forget_index, SessionMap.forget_queue] at hk
    refine Or.inl (hk.imp_left fun hk => ?_)
    split_ifs at hk with h₁
    · exact absurd rfl hk
    · exact hk

theorem Move.knowsSid {op : Op} {m m' : SessionMap} (h : Move op m m') {sid : Sid}
    (hk : m'.KnowsSid sid) : m.KnowsSid sid ∨ op.logsIn = some sid := by
  have update : ∀ {sid' : Sid} {e : SessionEntry} {o : Option SessionEntry},
      m.sessions sid' = some e → Function.update m.sessions sid' o sid ≠ none →
      m.sessions sid ≠ none := by
    intro sid' e o he hn
    by_cases hs : sid = sid'
    · subst hs; simp [he]
    · rwa [Function.update_of_ne hs] at hn
  unfold SessionMap.KnowsSid SessionMap.created at hk ⊢
  cases h with
  | create =>
    simp only [SessionMap.create_sessions, SessionMap.create_queue, List.filterMap_append,
      filterMap_creates_new, Function.update_apply, List.mem_append, List.mem_singleton] at hk
    simp only [Op.logsIn, Option.some.injEq]
    rcases hk with hk | hk | hk
    · split_ifs at hk with hh
      · exact Or.inr hh.symm
      · exact Or.inl (Or.inl hk)
    · exact Or.inl (Or.inr hk)
    · exact Or.inr hk.symm
  | refresh _ hi he hr =>
    simp only [SessionMap.commit_sessions, SessionMap.commit_queue, List.filterMap_append] at hk
    exact Or.inl (hk.imp (update he) fun hk => by simpa [SessionCommand.creates] using hk)
  | kill reason ho he ha =>
    exact Or.inl (hk.imp (update he) fun hk => by simpa [SessionCommand.creates] using hk)
  | touch he => exact Or.inl (hk.imp_left (update he))
  | announce => exact Or.inl hk
  | reap he =>
    simp only [SessionMap.reap_sessions, SessionMap.reap_queue, List.filterMap_append] at hk
    exact Or.inl (hk.imp (update he) fun hk => by simpa using hk)
  | remove he =>
    simp only [SessionMap.forget_sessions, SessionMap.forget_queue] at hk
    exact Or.inl (hk.imp_left (update he))

/-- `m'` has seen what `m` has, and what `ops` drew. -/
structure Known (m : SessionMap) (ops : List Op) (m' : SessionMap) : Prop where
  hash : ∀ hash, m'.Knows hash → m.Knows hash ∨ hash ∈ ops.filterMap Op.draws
  sid : ∀ sid, m'.KnowsSid sid → m.KnowsSid sid ∨ sid ∈ ops.filterMap Op.logsIn

theorem Known.freshIn {m m' : SessionMap} {ops : List Op} {op : Op} (hk : Known m ops m')
    (h : FreshFrom m (ops ++ [op])) : op.FreshIn m' := by
  obtain ⟨⟨hd, hl⟩, hm, hs⟩ := h
  simp only [List.filterMap_append, List.nodup_append, List.mem_append] at hd hl hm hs
  constructor
  · intro hash hh hkn
    have hin : hash ∈ [op].filterMap Op.draws := by simp [hh]
    rcases hk.hash hash hkn with h | h
    · exact hm hash (Or.inr hin) h
    · exact hd.2.2 hash h hash hin rfl
  · intro sid hh hkn
    have hin : sid ∈ [op].filterMap Op.logsIn := by simp [hh]
    rcases hk.sid sid hkn with h | h
    · exact hs sid (Or.inr hin) h
    · exact hl.2.2 sid h sid hin rfl

theorem Known.step {m m' : SessionMap} {ops : List Op} {op : Op} (hk : Known m ops m')
    (hf : op.FreshIn m') : Known m (ops ++ [op]) (m'.step op) := by
  have moved : ∀ m'', ReflTransGen (Move op) m' m'' →
      (∀ hash, m''.Knows hash → m'.Knows hash ∨ op.draws = some hash) ∧
        ∀ sid, m''.KnowsSid sid → m'.KnowsSid sid ∨ op.logsIn = some sid := by
    intro m'' h
    induction h with
    | refl => exact ⟨fun _ => Or.inl, fun _ => Or.inl⟩
    | tail _ h ih =>
      exact ⟨fun hash hn => (h.knows hn).elim (ih.1 hash) Or.inr,
        fun sid hn => (h.knowsSid hn).elim (ih.2 sid) Or.inr⟩
  obtain ⟨hh, hs⟩ := moved _ (SessionMap.step_moves hf)
  constructor
  · intro hash hn
    rw [List.filterMap_append, List.mem_append]
    rcases hh hash hn with h | h
    · exact (hk.hash hash h).imp_right Or.inl
    · exact Or.inr (Or.inr (by simp [h]))
  · intro sid hn
    rw [List.filterMap_append, List.mem_append]
    rcases hs sid hn with h | h
    · exact (hk.sid sid h).imp_right Or.inl
    · exact Or.inr (Or.inr (by simp [h]))

theorem FreshFrom.known {m : SessionMap} (ops : List Op) (h : FreshFrom m ops) :
    Known m ops (run SessionMap.step m ops) :=
  run_invariant (fun _ _ => FreshFrom.of_append) ⟨fun _ => Or.inl, fun _ => Or.inl⟩
    (fun _ _ hf hk => hk.step (hk.freshIn hf)) ops h

/-- In a fresh run every call draws only what the map has not seen. -/
theorem FreshFrom.freshIn {m : SessionMap} {ops : List Op} {op : Op}
    (h : FreshFrom m (ops ++ [op])) : op.FreshIn (run SessionMap.step m ops) :=
  (h.of_append.known).freshIn h

/-- **Invariant rule for the session map.** -/
theorem fresh_invariant {m : SessionMap} (Inv : SessionMap → Prop) (h₀ : Inv m)
    (hs : ∀ op m m', Inv m → Move op m m' → Inv m') {ops : List Op} (h : FreshFrom m ops) :
    Inv (run SessionMap.step m ops) :=
  run_moves_invariant (FreshFrom m) Inv (fun _ _ => FreshFrom.of_append)
    (fun _ _ h => SessionMap.step_moves h.freshIn) h₀ (fun _ op m m' _ => hs op m m') ops h

/-- What moves preserve and holds after `ops` holds later on. -/
theorem fresh_stable {m : SessionMap} {ops : List Op} (Inv : SessionMap → Prop)
    (h₀ : Inv (run SessionMap.step m ops)) (hs : ∀ op m m', Inv m → Move op m m' → Inv m')
    {ops' : List Op} (h : FreshFrom m (ops ++ ops')) :
    Inv (run SessionMap.step m (ops ++ ops')) := by
  induction ops' using List.reverseRecOn with
  | nil => rwa [List.append_nil]
  | append_singleton ops' op ih =>
    rw [← List.append_assoc] at h ⊢
    rw [run_concat]
    exact moves_invariant Inv (hs op) (SessionMap.step_moves h.freshIn) (ih h.of_append)

end SessionBroker
