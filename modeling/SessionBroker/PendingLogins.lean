/-
  How long the broker keeps a login that does not come back (`TxnStore`,
  `oauth.rs`).

  * `txnEvent`: what a step does to the transactions.  A login puts one, a
    callback that redeems or discards takes the one it names, whatever comes of
    it; nothing looks at the age of the others;
  * `run_txns`: the store is what these events leave of an empty one;
  * `pending_logins_iff`: the store is bounded in time iff every login that had
    outlived its transaction by a later one was presented before that.
-/
import SessionBroker.SingleUse
import SessionBroker.Lib.Slots

namespace SessionBroker

open Runs SignOn Slots

/-! ## The transactions of a run -/

namespace SignOn

/-- What a login does to the transactions. -/
def loginEvent (s : SignOn) (r : ℕ) (op : LoginOp) : Option (Event String TxnRecord) :=
  match s.logins r, op with
  | .connecting entry, .connected discovery draw now =>
    match (s.registry.clientOf entry discovery).1 with
    | .ok client => some (.put draw.txnId (client.beginLogin draw now))
    | .error _ => none
  | _, _ => none

/-- What a callback does to them. -/
def callbackEvent (s : SignOn) (r : ℕ) (op : CallbackOp) : Option (Event String TxnRecord) :=
  match s.callbacks r with
  | none => none
  | some c =>
    match c.stage, op with
    | .connected _, .redeem | .discarding _, .discard => some (.take c.txnId)
    | _, _ => none

def txnEvent (s : SignOn) : SignOnOp → Option (Event String TxnRecord)
  | .login r op => s.loginEvent r op
  | .callback r op => s.callbackEvent r op
  | .admin .. => none

/-- The transactions after such a step, and the logins begun. -/
def TxnStep (s s' : SignOn) (e? : Option (Event String TxnRecord)) : Prop :=
  s'.txns = e?.elim s.txns (·.apply s.txns) ∧ s'.begun = s.begun ++ puts e?.toList

variable {env : SignOnEnv} {s : SignOn}

theorem TxnStep.none {s' : SignOn} (ht : s'.txns = s.txns) (hb : s'.begun = s.begun) :
    TxnStep s s' none :=
  ⟨ht, hb.trans (List.append_nil _).symm⟩

theorem stepLogin_txns (s : SignOn) (r : ℕ) (op : LoginOp) :
    TxnStep s (s.stepLogin r op) (s.loginEvent r op) := by
  unfold stepLogin loginEvent
  generalize s.logins r = stage
  cases stage with
  | connecting entry =>
    cases op with
    | arrive requested => exact .none rfl rfl
    | connected discovery draw now =>
      dsimp only
      obtain ⟨_ | client, registry⟩ := s.registry.clientOf entry discovery
      · exact .none rfl rfl
      · exact ⟨rfl, rfl⟩
  | _ => cases op <;> exact .none rfl rfl

theorem stepCallback_txns (s : SignOn) (r : ℕ) (op : CallbackOp) :
    TxnStep s (s.stepCallback env r op) (s.callbackEvent r op) := by
  unfold stepCallback callbackEvent
  generalize s.callbacks r = called
  cases called with
  | none => cases op <;> exact .none rfl rfl
  | some c =>
    obtain ⟨txnId, query, now, stage⟩ := c
    cases op with
    | redeem =>
      cases stage with
      | connected client =>
        exact ⟨(Callback.redeem_spec _ client s.txns).1, (List.append_nil _).symm⟩
      | _ => exact .none rfl rfl
    | discard =>
      cases stage with
      | discarding error => exact ⟨rfl, (List.append_nil _).symm⟩
      | _ => exact .none rfl rfl
    | takeCustody custodyId nextRefresh fails =>
      cases stage with
      | admitted client upstreamSub tokens =>
        dsimp only
        split <;> exact .none rfl rfl
      | _ => exact .none rfl rfl
    | _ => cases stage <;> exact .none rfl rfl

theorem stepAdmin_txns (s : SignOn) (r : ℕ) (op : AdminOp) :
    TxnStep s (s.stepAdmin env r op) none := by
  unfold stepAdmin
  split <;> exact .none rfl rfl

/-- **What a step does to the transactions** is its event. -/
theorem step_txns (env : SignOnEnv) (s : SignOn) (op : SignOnOp) :
    TxnStep s (s.step env op) (s.txnEvent op) := by
  cases op with
  | login r op => exact stepLogin_txns s r op
  | callback r op => exact stepCallback_txns s r op
  | admin r op => exact stepAdmin_txns s r op

/-- The events of a run. -/
def txnTrace (env : SignOnEnv) : SignOn → List SignOnOp → List (Event String TxnRecord) :=
  trace txnEvent (step env)

theorem run_txns (env : SignOnEnv) (registry : ProviderRegistry) (db : Db) (ops : List SignOnOp) :
    (run (step env) (start registry db) ops).txns = held (txnTrace env (start registry db) ops) ∧
    (run (step env) (start registry db) ops).begun = puts (txnTrace env (start registry db) ops) := by
  induction ops using List.reverseRecOn with
  | nil => exact ⟨rfl, rfl⟩
  | append_singleton ops op ih =>
    obtain ⟨htxns, hbegun⟩ := step_txns env (run (step env) (start registry db) ops) op
    rw [run_concat, htxns, hbegun, ih.1, ih.2, txnTrace, trace_concat, puts_append]
    refine ⟨?_, rfl⟩
    cases (run (step env) (start registry db) ops).txnEvent op with
    | none => rw [Option.toList_none, List.append_nil]; rfl
    | some e => exact (held_concat _ e).symm

/-! ## The bound -/

/-- As of the last login begun: no transaction is past its lifetime, and there
    are no more of them than logins begun within it. -/
def LoginsBounded (s : SignOn) : Prop :=
  ∀ last ∈ s.begun.getLast?,
    (∀ id record, s.txns id = some record →
      last.2.createdAt.secs ≤ record.createdAt.secs + txnTtlSecs) ∧
    {id | (s.txns id).isSome}.ncard ≤ (s.begun.filter fun b =>
      decide (last.2.createdAt.secs ≤ b.2.createdAt.secs + txnTtlSecs)).length

end SignOn

/-- By the time of `later` the transaction is past its lifetime. -/
def TxnRecord.Outlived (record later : TxnRecord) : Prop :=
  record.createdAt.secs + txnTtlSecs < later.createdAt.secs

namespace SignOn

theorem loginsBounded_iff (env : SignOnEnv) (registry : ProviderRegistry) (db : Db)
    (ops : List SignOnOp) : (run (step env) (start registry db) ops).LoginsBounded ↔
      Current TxnRecord.Outlived (txnTrace env (start registry db) ops) := by
  obtain ⟨htxns, hbegun⟩ := run_txns env registry db ops
  unfold LoginsBounded Current TxnRecord.Outlived
  rw [htxns, hbegun]
  constructor
  · exact fun h last hlast id record hheld => not_lt.2 ((h last hlast).1 id record hheld)
  · intro h last hlast
    have hfresh : ∀ id record, held (txnTrace env (start registry db) ops) id = some record →
        last.2.createdAt.secs ≤ record.createdAt.secs + txnTtlSecs :=
      fun id record hheld => not_lt.1 (h last hlast id record hheld)
    refine ⟨hfresh, ncard_held_le (fun record : TxnRecord =>
      decide (last.2.createdAt.secs ≤ record.createdAt.secs + txnTtlSecs)) fun id record hheld => ?_⟩
    exact decide_eq_true (hfresh id record hheld)

/-- **When pending logins are bounded in time**: the store holds to it in every
    state of a run iff, by each login begun, every login begun more than
    `TXN_TTL_SECS` before it had come back, with whatever outcome, or had its id
    drawn again. -/
theorem pending_logins_iff (env : SignOnEnv) (registry : ProviderRegistry) (db : Db)
    (ops : List SignOnOp) :
    (∀ before after, ops = before ++ after →
      (run (step env) (start registry db) before).LoginsBounded) ↔
    ∀ before id record between id' record' after,
      txnTrace env (start registry db) ops =
        before ++ .put id record :: (between ++ .put id' record' :: after) →
      record.Outlived record' → id' = id ∨ ∃ e ∈ between, e.key = id := by
  have hirr : ∀ record : TxnRecord, ¬ record.Outlived record := by
    intro record h
    unfold TxnRecord.Outlived txnTtlSecs at h
    omega
  rw [← current_iff hirr]
  constructor
  · intro h es es' hes
    obtain ⟨before, after, rfl, rfl⟩ := exists_prefix hes
    exact (loginsBounded_iff env registry db before).1 (h before after rfl)
  · rintro h before after rfl
    exact (loginsBounded_iff env registry db before).2
      (h _ _ (trace_append (start registry db) before after))

/-- A login nobody comes back from, and another one ten minutes and a second
    later. -/
def abandonedLogin : List SignOnOp :=
  [.login 0 (.arrive (some "p")), .login 0 (.connected (.ok true) ⟨"t", "state", "n", "v", none⟩ ⟨0⟩),
   .login 1 (.arrive (some "p")), .login 1 (.connected (.ok true) ⟨"u", "state", "n", "v", none⟩ ⟨601⟩)]

/-- The abandoned one is still there: two transactions, one login in the last
    ten minutes. -/
theorem abandoned_login_stays :
    let s := run (step TwoTabs.env) (start TwoTabs.registry (Db.fresh ⟨0⟩)) abandonedLogin
    (s.txns "t").map (·.createdAt) = some ⟨0⟩ ∧ (s.txns "u").map (·.createdAt) = some ⟨601⟩ ∧
    s.begun.map (·.2.createdAt) = [⟨0⟩, ⟨601⟩] ∧ ¬ s.LoginsBounded := by
  intro s
  have ht : (s.txns "t").map (·.createdAt) = some ⟨0⟩ := by decide +kernel
  have hb : s.begun.map (·.2.createdAt) = [⟨0⟩, ⟨601⟩] := by decide +kernel
  refine ⟨ht, by decide +kernel, hb, fun h => ?_⟩
  obtain ⟨record, hrecord, hcreated⟩ := Option.map_eq_some_iff.1 ht
  have hlast : s.begun.getLast?.map (·.2.createdAt) = some ⟨601⟩ := by
    rw [← List.getLast?_map, hb]
    rfl
  obtain ⟨last, hmem, hat⟩ := Option.map_eq_some_iff.1 hlast
  have hbound := (h last hmem).1 "t" record hrecord
  rw [hcreated, hat] at hbound
  exact absurd hbound (by decide)

end SignOn

end SessionBroker
