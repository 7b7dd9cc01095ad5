/-
  The backoff of a custody across a restart (`keepalive.rs`, `main.rs`).

  * `backoffEnvelope` is what the jitter scales.  The scheduler chooses it by
    the failure count of the entry (`envelopes_eq`);
  * `Counts`: in every run of the broker that count is the number of
    consecutive failures;
  * a boot starts it again at zero, which shows unless the envelope is at its
    cap already (`backoffs_eq_iff`, `backoff_survives_iff`).
-/
import SessionBroker.Schedules

namespace SessionBroker

open Runs

/-! ## Envelopes -/

/-- `exponential` in `backoff_secs`. -/
def backoffEnvelope (policy : KeepalivePolicy) (failCount : ℕ) : ℕ :=
  min (min (policy.baseBackoffSecs * 2 ^ min failCount 16) (2 ^ 64 - 1)) policy.maxBackoffSecs

/-- One more outcome, for a number of consecutive failures. -/
def RefreshOutcome.failures (n : ℕ) : RefreshOutcome → ℕ
  | transient _ => n + 1
  | success .. => 0
  | permanent => 0

/-- The failure count of an entry after one more outcome. -/
def RefreshOutcome.failCount (n : ℕ) : RefreshOutcome → ℕ
  | transient _ => min (n + 1) (2 ^ 32 - 1)
  | success .. => 0
  | permanent => n

/-- The consecutive failures at the end of some outcomes. -/
def consecutiveFailures (outcomes : List RefreshOutcome) : ℕ :=
  outcomes.foldl RefreshOutcome.failures 0

/-- The envelopes for the failures without `Retry-After` among some outcomes,
    after `n` failures: the base doubled once for each, and capped.  `Permanent`
    does not touch the count; the worker has no outcome after it. -/
def backoffs (policy : KeepalivePolicy) : ℕ → List RefreshOutcome → List ℕ
  | _, [] => []
  | n, .transient none :: outcomes => backoffEnvelope policy n :: backoffs policy (n + 1) outcomes
  | n, .transient (some _) :: outcomes => backoffs policy (n + 1) outcomes
  | _, .success .. :: outcomes => backoffs policy 0 outcomes
  | n, .permanent :: outcomes => backoffs policy n outcomes

/-- After `j` failures more, doubling makes no difference. -/
def AtCap (policy : KeepalivePolicy) (j : ℕ) : Prop :=
  policy.baseBackoffSecs = 0 ∨ 16 ≤ j ∨ policy.maxBackoffSecs ≤ policy.baseBackoffSecs * 2 ^ j

instance (policy : KeepalivePolicy) (j : ℕ) : Decidable (AtCap policy j) :=
  inferInstanceAs (Decidable (_ ∨ _))

/-- Up to the first success, every failure without `Retry-After` comes at the
    cap, counted from `j`. -/
def Capped (policy : KeepalivePolicy) : ℕ → List RefreshOutcome → Prop
  | _, [] => True
  | j, .transient none :: outcomes => AtCap policy j ∧ Capped policy (j + 1) outcomes
  | j, .transient (some _) :: outcomes => Capped policy (j + 1) outcomes
  | _, .success .. :: _ => True
  | j, .permanent :: outcomes => Capped policy j outcomes

section
variable {policy : KeepalivePolicy} {j k : ℕ}

/-- The jitter scales the envelope. -/
theorem backoffSecs_none (n : ℕ) (draw : Draw) :
    backoffSecs policy n none draw = max (draw.scaled (backoffEnvelope policy n)) 1 := rfl

/-- Saturating at `u32::MAX` does not show in the envelope. -/
theorem envelope_saturated (policy : KeepalivePolicy) (n : ℕ) :
    backoffEnvelope policy (min (min n (2 ^ 32 - 1) + 1) (2 ^ 32 - 1) - 1) =
      backoffEnvelope policy n := by
  unfold backoffEnvelope
  rw [show min (min (min n (2 ^ 32 - 1) + 1) (2 ^ 32 - 1) - 1) 16 = min n 16 by omega]

/-- More failures show in the envelope, below the cap. -/
theorem envelope_eq_iff (hmax : policy.maxBackoffSecs < 2 ^ 64) (hk : 0 < k) :
    backoffEnvelope policy (j + k) = backoffEnvelope policy j ↔ AtCap policy j := by
  have henv (n : ℕ) : backoffEnvelope policy n =
      min (policy.baseBackoffSecs * 2 ^ min n 16) policy.maxBackoffSecs := by
    unfold backoffEnvelope
    omega
  rw [henv, henv]
  constructor
  · intro heq
    by_contra hcap
    simp only [AtCap, not_or, not_le] at hcap
    obtain ⟨hbase, hj, hlt⟩ := hcap
    rw [min_eq_left (by omega : j ≤ 16), min_eq_left (by omega : _ ≤ policy.maxBackoffSecs)] at heq
    -- one doubling more is enough to be seen
    have hpow : 2 ^ (j + 1) ≤ 2 ^ min (j + k) 16 := Nat.pow_le_pow_right (by omega) (by omega)
    have hmul := Nat.mul_le_mul_left policy.baseBackoffSecs hpow
    have hpos : 0 < policy.baseBackoffSecs * 2 ^ j := Nat.mul_pos (by omega) (Nat.two_pow_pos j)
    rw [Nat.pow_succ, ← Nat.mul_assoc] at hmul
    omega
  · rintro (hbase | hj | hmul)
    · rw [hbase, Nat.zero_mul, Nat.zero_mul]
    · rw [min_eq_right hj, min_eq_right (by omega : 16 ≤ j + k)]
    · by_cases hj : 16 ≤ j
      · rw [min_eq_right hj, min_eq_right (by omega : 16 ≤ j + k)]
      · have hpow : 2 ^ j ≤ 2 ^ min (j + k) 16 := Nat.pow_le_pow_right (by omega) (by omega)
        have hmul' := Nat.mul_le_mul_left policy.baseBackoffSecs hpow
        rw [min_eq_left (by omega : j ≤ 16)]
        omega

/-- **Where forgotten failures show**: unless the cap hides them. -/
theorem backoffs_eq_iff (hmax : policy.maxBackoffSecs < 2 ^ 64) (hk : 0 < k)
    (outcomes : List RefreshOutcome) :
    backoffs policy j outcomes = backoffs policy (j + k) outcomes ↔ Capped policy j outcomes := by
  induction outcomes generalizing j with
  | nil => exact iff_of_true rfl trivial
  | cons outcome outcomes ih =>
    have hnext : j + k + 1 = j + 1 + k := by omega
    cases outcome with
    | transient retryAfterSecs =>
      cases retryAfterSecs with
      | none =>
        rw [backoffs, backoffs, Capped, List.cons.injEq, hnext, ih, eq_comm, envelope_eq_iff hmax hk]
      | some secs => rw [backoffs, backoffs, Capped, hnext, ih]
    | success lifetimeSecs rotatedRefresh => exact iff_of_true rfl trivial
    | permanent => rw [backoffs, backoffs, Capped, ih]

end

/-! ## The scheduler's choice -/

/-- The outcome of the custody that an operation records. -/
def SchedulerOp.outcomeOf (custody : CustodyId) : SchedulerOp → Option RefreshOutcome
  | record c outcome .. => if c = custody then some outcome else none
  | _ => none

theorem SchedulerOp.eq_record {custody : CustodyId} {op : SchedulerOp} {outcome : RefreshOutcome}
    (h : op.outcomeOf custody = some outcome) :
    ∃ now draw, op = .record custody outcome now draw := by
  cases op with
  | record c o now draw =>
    simp only [outcomeOf, Option.ite_none_right_eq_some, Option.some.injEq] at h
    obtain ⟨rfl, rfl⟩ := h
    exact ⟨now, draw, rfl⟩
  | _ => cases h

/-- The operation leaves the custody registered as it is. -/
def SchedulerOp.Stays (custody : CustodyId) : SchedulerOp → Prop
  | insert c .. | insertRestored c .. | remove c => c ≠ custody
  | _ => True

namespace Scheduler

/-- The envelope that `record` chooses, if it chooses one for the custody. -/
def chosen (s : Scheduler) (custody : CustodyId) (op : SchedulerOp) : Option ℕ :=
  if op.outcomeOf custody = some (.transient none) then
    (s.entries custody).map fun st =>
      backoffEnvelope s.policy (min (st.failCount + 1) (2 ^ 32 - 1) - 1)
  else none

/-- The envelopes chosen for the custody over a run. -/
def envelopes (custody : CustodyId) : Scheduler → List SchedulerOp → List ℕ
  | _, [] => []
  | s, op :: ops => (s.chosen custody op).toList ++ envelopes custody (s.step op) ops

section
variable {s : Scheduler} {custody : CustodyId} {st : CustodyState} {n : ℕ}

theorem step_policy (s : Scheduler) (op : SchedulerOp) : (s.step op).policy = s.policy := by
  cases op with
  | record c outcome now draw => exact record_policy outcome
  | _ => rfl

/-- The delay of a failure is drawn from the envelope chosen for it. -/
theorem record_chosen (h : s.entries custody = some st) (now : Timestamp) (draw : Draw) :
    ∃ e, s.chosen custody (.record custody (.transient none) now draw) = some e ∧
      ((s.record custody (.transient none) now draw).1.entries custody).map (·.nextRefresh) =
        some (now.plusSecs (max (draw.scaled e) 1)) := by
  refine ⟨_, by rw [chosen, SchedulerOp.outcomeOf, if_pos rfl, if_pos rfl, h]; rfl, ?_⟩
  rw [record, h]
  dsimp only
  rw [put_entries, if_pos rfl, backoffSecs_none]
  rfl

/-- An outcome, on the failure count. -/
theorem record_failCount (h : s.entries custody = some st) (outcome : RefreshOutcome)
    (now : Timestamp) (draw : Draw) :
    ∃ st', (s.record custody outcome now draw).1.entries custody = some st' ∧
      (st'.status = .dead ↔ outcome = .permanent) ∧
      st'.failCount = outcome.failCount st.failCount := by
  rw [record, h]
  cases outcome with
  | success lifetimeSecs rotatedRefresh =>
    exact ⟨_, (put_entries ..).trans (if_pos rfl), by simp, rfl⟩
  | transient retryAfterSecs =>
    refine ⟨_, (put_entries ..).trans (if_pos rfl), ?_, rfl⟩
    dsimp only
    split_ifs <;> simp
  | permanent => exact ⟨_, Function.update_self .., by simp, rfl⟩

/-- Any other operation leaves the failure count alone. -/
theorem step_failCount {op : SchedulerOp} (h : s.entries custody = some st)
    (hstays : op.Stays custody) (hop : op.outcomeOf custody = none) :
    ∃ st', (s.step op).entries custody = some st' ∧ st'.failCount = st.failCount := by
  cases op with
  | insert c issuedAt lifetimeSecs draw =>
    refine ⟨st, ?_, rfl⟩
    rw [step, insert, put_entries, if_neg (Ne.symm hstays), h]
  | insertRestored c status accessExp nextRefresh =>
    refine ⟨st, ?_, rfl⟩
    rw [step, insertRestored, put_entries, if_neg (Ne.symm hstays), h]
  | remove c => exact ⟨st, (Function.update_of_ne (Ne.symm hstays) _ _).trans h, rfl⟩
  | takeDue now =>
    show ∃ st', (s.takeDue now).1.entries custody = some st' ∧ _
    rw [takeDue_entries, mark, h]
    split_ifs <;> exact ⟨_, rfl, rfl⟩
  | record c outcome now draw =>
    have hc : c ≠ custody := by
      rintro rfl
      simp [SchedulerOp.outcomeOf] at hop
    exact ⟨st, (record_entries_of_ne (Ne.symm hc)).trans h, rfl⟩

/-- **What a scheduler chooses** over a run, after `n` failures.  The count is a
    `u32` which saturates, long after the envelope does. -/
theorem envelopes_eq (h : s.entries custody = some st) (hn : st.failCount = min n (2 ^ 32 - 1))
    {ops : List SchedulerOp} (hops : ∀ op ∈ ops, op.Stays custody) :
    envelopes custody s ops =
      backoffs s.policy n (ops.filterMap (SchedulerOp.outcomeOf custody)) := by
  induction ops generalizing s st n with
  | nil => rfl
  | cons op ops ih =>
    have hrest : ∀ op' ∈ ops, op'.Stays custody := fun op' hm => hops op' (List.mem_cons_of_mem _ hm)
    cases ho : op.outcomeOf custody with
    | none =>
      obtain ⟨st', hst', hcount⟩ := step_failCount h (hops op (List.mem_cons_self ..)) ho
      rw [envelopes, ih hst' (hcount.trans hn) hrest, step_policy, List.filterMap_cons_none ho, chosen,
        ho]
      rfl
    | some outcome =>
      obtain ⟨now, draw, rfl⟩ := SchedulerOp.eq_record ho
      obtain ⟨st', hst', -, hcount⟩ := record_failCount h outcome now draw
      replace hst' : (s.step (.record custody outcome now draw)).entries custody = some st' := hst'
      rw [envelopes, List.filterMap_cons_some ho, chosen, ho, h]
      cases outcome with
      | transient retryAfterSecs =>
        have hcount' : st'.failCount = min (n + 1) (2 ^ 32 - 1) := by
          simp only [RefreshOutcome.failCount] at hcount
          omega
        rw [ih hst' hcount' hrest, step_policy]
        cases retryAfterSecs with
        | none =>
          rw [backoffs, if_pos rfl, Option.map_some, hn, envelope_saturated]
          rfl
        | some secs =>
          rw [backoffs, if_neg (by simp)]
          rfl
      | success lifetimeSecs rotatedRefresh =>
        rw [ih hst' (n := 0) hcount hrest, step_policy, backoffs, if_neg (by simp)]
        rfl
      | permanent =>
        rw [ih hst' (hcount.trans hn) hrest, step_policy, backoffs, if_neg (by simp)]
        rfl

end

end Scheduler

/-! ## The count in a run -/

/-- What a boot schedules has failed never. -/
theorem restore_failCount {db : Db} {policy : KeepalivePolicy} {now : Timestamp}
    {custody : CustodyId} {st : CustodyState}
    (h : (restoreKeepaliveSchedule db (.new policy) now).entries custody = some st) :
    st.failCount = 0 := by
  suffices hfold : ∀ (rows : List (CustodySchedule × ℕ)) (n : ℕ) (s : Scheduler),
      (∀ st, s.entries custody = some st → st.failCount = 0) →
      ∀ st, (rows.foldl (fun s r => s.insertRestored r.1.custodyId r.1.status r.1.accessExp
          (if r.1.nextRefresh.secs ≤ now.secs then now.plusSecs (r.2 * 30 / max n 1)
            else r.1.nextRefresh)) s).entries custody = some st → st.failCount = 0 from
    hfold _ _ (.new policy) (fun st hst => by cases hst) st h
  intro rows n
  induction rows with
  | nil => exact fun s hs => hs
  | cons r rows ih =>
    refine fun s hs => ih _ fun st hst => ?_
    dsimp only at hst
    rw [Scheduler.insertRestored, Scheduler.put_entries] at hst
    by_cases hc : custody = r.1.custodyId
    · rw [if_pos hc] at hst
      cases hst
      rfl
    · rw [if_neg hc] at hst
      exact hs st hst

namespace Renewals

/-- The outcome of the custody that an operation joins. -/
def joined (s : Renewals) (custody : CustodyId) : RenewalOp → Option RefreshOutcome
  | .join c .. => if c = custody ∧ s.Joins c then (s.task c).outcome else none
  | _ => none

/-- The outcomes of the custody over a run. -/
def outcomes (ring : KeyRing) (custody : CustodyId) :
    Renewals → List RenewalOp → List RefreshOutcome
  | _, [] => []
  | s, op :: ops => (s.joined custody op).toList ++ outcomes ring custody (s.step ring op) ops

/-- The entry counts the consecutive failures. -/
structure Counts (s : Renewals) (custody : CustodyId) (n : ℕ) : Prop where
  entry : ∀ st, s.broker.worker.scheduler.entries custody = some st → st.status ≠ .dead →
    st.failCount = min n (2 ^ 32 - 1)
  failing : 0 < n → ∃ st, s.broker.worker.scheduler.entries custody = some st ∧ st.status ≠ .dead

variable {ring : KeyRing} {s : Renewals} {custody : CustodyId} {n : ℕ}

/-- A custody that appears has failed never. -/
theorem step_appears (ring : KeyRing) {b : Broker} {op : BrokerOp} {st : CustodyState}
    (hop : op.refreshes = false) (hnone : b.worker.scheduler.entries custody = none)
    (hst : (b.step ring op).worker.scheduler.entries custody = some st) : st.failCount = 0 := by
  have habsurd (h : b.worker.scheduler.entries custody = some st) : st.failCount = 0 := by
    rw [hnone] at h
    cases h
  cases op with
  | accept draw =>
    simp only [Broker.step] at hst
    split_ifs at hst
    · split at hst
      · exact habsurd hst
      · rename_i r requests hr
        replace hst : (b.worker.scheduler.insert r.custody r.issuedAt r.lifetimeSecs draw).entries
          custody = some st := hst
        rw [Scheduler.insert, Scheduler.put_entries] at hst
        split_ifs at hst
        · cases hst
          rfl
        · exact habsurd hst
    · exact habsurd hst
  | tick now =>
    simp only [Broker.step] at hst
    split_ifs at hst
    · replace hst : (b.worker.scheduler.takeDue now).1.entries custody = some st := hst
      rw [Scheduler.takeDue_entries, Scheduler.mark, hnone] at hst
      split_ifs at hst
      cases hst
    · exact habsurd hst
  | dispatch =>
    simp only [Broker.step] at hst
    split_ifs at hst
    · replace hst : b.worker.dispatch.scheduler.entries custody = some st := hst
      unfold KeepaliveWorker.dispatch at hst
      split at hst <;> exact habsurd hst
    · exact habsurd hst
  | act order =>
    simp only [Broker.step] at hst
    split at hst
    · exact habsurd hst
    · rw [Broker.perform_worker] at hst
      exact habsurd hst
  | schedule c issuedAt lifetimeSecs =>
    simp only [Broker.step] at hst
    split at hst
    · split_ifs at hst <;> exact habsurd hst
    · exact habsurd hst
  | takeCustody row =>
    simp only [Broker.step] at hst
    split_ifs at hst <;> exact habsurd hst
  | create sid c sub token now =>
    simp only [Broker.step] at hst
    split_ifs at hst <;> exact habsurd hst
  | commit count b c => exact habsurd hst
  | renew => cases hop
  | join => cases hop

/-- The entry is as it was. -/
theorem Counts.same {s' : Renewals} (h : s.Counts custody n)
    (heq : s'.broker.worker.scheduler.entries custody = s.broker.worker.scheduler.entries custody) :
    s'.Counts custody n :=
  ⟨heq ▸ h.entry, heq ▸ h.failing⟩

/-- A step of the broker that is not of a refresh. -/
theorem Counts.broker {op : BrokerOp} (h : s.Counts custody n) (hs : s.broker.Coherent)
    (hop : op.refreshes = false) :
    ({ s with broker := s.broker.step ring op } : Renewals).Counts custody n := by
  cases he : s.broker.worker.scheduler.entries custody with
  | none =>
    obtain rfl : n = 0 := by
      by_contra hn
      obtain ⟨st, hst, -⟩ := h.failing (Nat.pos_of_ne_zero hn)
      rw [he] at hst
      cases hst
    exact ⟨fun st hst _ => step_appears ring hop he hst, fun hn => absurd hn (lt_irrefl 0)⟩
  | some st =>
    obtain ⟨st', hst', hsame⟩ := Broker.step_schedule ring hs hop he
    obtain ⟨hstatus, hcount, -⟩ := Schedule.mk.inj hsame
    refine ⟨fun st'' hst'' hd => ?_, fun hn => ⟨st', hst', ?_⟩⟩
    · obtain rfl : st' = st'' := Option.some.inj (hst'.symm.trans hst'')
      have := h.entry st he (hstatus ▸ hd)
      omega
    · obtain ⟨st₀, hst₀, hd⟩ := h.failing hn
      obtain rfl : st = st₀ := Option.some.inj (he.symm.trans hst₀)
      exact hstatus ▸ hd

/-- **One outcome more.** -/
theorem Counts.join {c : CustodyId} {outcome : RefreshOutcome} {now : Timestamp} {draw : Draw}
    (h : s.Counts custody n) (hs : s.broker.Coherent) (hj : s.Joins c) :
    ({ s.setTask c .spawned with
      broker := s.broker.step ring (.join c (some outcome) now draw) } : Renewals).Counts custody
        (if c = custody then outcome.failures n else n) := by
  rw [join_broker ring hj]
  split_ifs with hc
  · subst hc
    obtain ⟨status, hstatus, hlive⟩ := hs.worker.live c (List.mem_append_left _ hj.1)
    obtain ⟨st, hst, rfl⟩ := Option.map_eq_some_iff.1 hstatus
    obtain ⟨st', hst', hdead, hcount⟩ := Scheduler.record_failCount hst outcome now draw
    have hn := h.entry st hst hlive
    refine ⟨fun st'' hst'' hd => ?_, fun hpos => ⟨st', hst', ?_⟩⟩
    · obtain rfl : st' = st'' := Option.some.inj (hst'.symm.trans hst'')
      cases outcome with
      | success lifetimeSecs rotatedRefresh => exact hcount
      | transient retryAfterSecs =>
        simp only [RefreshOutcome.failCount, RefreshOutcome.failures] at hcount ⊢
        omega
      | permanent => exact absurd (hdead.2 rfl) hd
    · intro hd
      rw [hdead.1 hd] at hpos
      exact absurd hpos (lt_irrefl 0)
  · exact h.same (Scheduler.record_entries_of_ne (Ne.symm hc))

/-- **The count is kept** by every step. -/
theorem Counts.step (h : s.Counts custody n) (hs : s.broker.Coherent) (op : RenewalOp) :
    (s.step ring op).Counts custody ((s.joined custody op).toList.foldl RefreshOutcome.failures n) := by
  cases op with
  | broker op =>
    simp only [Renewals.step, joined]
    split_ifs with hop
    · exact h
    · exact h.broker hs (Bool.eq_false_of_not_eq_true hop)
  | load c readFails =>
    simp only [Renewals.step, joined]
    split_ifs <;> exact h.same rfl
  | answer c reply now =>
    simp only [Renewals.step, joined]
    split <;> exact h.same rfl
  | send c =>
    simp only [Renewals.step, joined]
    split
    · refine h.same ?_
      simp only [Broker.step]
      split_ifs <;> rfl
    · exact h
  | acknowledge c =>
    simp only [Renewals.step, joined]
    split
    · split_ifs <;> exact h.same rfl
    · exact h
  | join c now draw =>
    simp only [Renewals.step, joined]
    by_cases hj : s.Joins c
    · rw [if_pos hj]
      cases ho : (s.task c).outcome with
      | none => simpa [ho] using h
      | some outcome =>
        have hnext : ({ s.setTask c .spawned with
            broker := s.broker.step ring (.join c (some outcome) now draw) } : Renewals).Counts custody
              (if c = custody then outcome.failures n else n) := h.join hs hj
        by_cases hc : c = custody
        · subst hc
          simpa [hj] using hnext
        · simpa [hc] using hnext
    · simpa [hj] using h
  | panic c now draw =>
    simp only [Renewals.step, joined]
    split_ifs with hj
    · split
      all_goals first
        | exact h
        | refine h.same ?_
          rw [join_broker ring hj]
          rfl
    · exact h

theorem Counts.run {ops : List RenewalOp} (h : s.Counts custody n) (hs : s.broker.Coherent) :
    (run (Renewals.step ring) s ops).Counts custody
      ((outcomes ring custody s ops).foldl RefreshOutcome.failures n) := by
  induction ops generalizing s n with
  | nil => exact h
  | cons op ops ih =>
    rw [outcomes, List.foldl_append]
    exact ih (h.step hs op) (coherent_step hs op)

theorem counts_boot (policy : SessionPolicy) (keepalive : KeepalivePolicy) (db : Db)
    (now : Timestamp) (newest : CustodyId → Bytes) (custody : CustodyId) :
    (boot policy keepalive db now newest).Counts custody 0 :=
  ⟨fun _ hst _ => restore_failCount hst, fun hn => absurd hn (lt_irrefl 0)⟩

theorem boot_policy (policy : SessionPolicy) (keepalive : KeepalivePolicy) (db : Db)
    (now : Timestamp) (newest : CustodyId → Bytes) (ops : List RenewalOp) :
    (run (step ring) (boot policy keepalive db now newest) ops).broker.worker.scheduler.policy =
      keepalive := by
  suffices hrun : ∀ s : Renewals,
      (run (Renewals.step ring) s ops).broker.worker.scheduler.policy =
        s.broker.worker.scheduler.policy from
    (hrun _).trans (restore_policy db (.new keepalive) now)
  induction ops with
  | nil => exact fun _ => rfl
  | cons op ops ih =>
    refine fun s => (ih _).trans ?_
    rcases s.step_broker ring op with hb | ⟨bop, hb⟩
    · rw [hb]
    · rw [hb, Broker.step_policy]

/-- **What of a backoff survives a restart.**  After a run that ends with
    `k` consecutive failures of a custody, and once its row has the schedule of
    its entry, the running worker goes on from `k`: the base doubled once for
    each failure, and capped.  A restarted one chooses the same for the same
    outcomes exactly where the cap hides the difference. -/
theorem backoff_survives_iff (ring : KeyRing) (policy : SessionPolicy) (keepalive : KeepalivePolicy)
    (hmax : keepalive.maxBackoffSecs < 2 ^ 64) (db : Db) (hdb : db.Integrity) (now : Timestamp)
    (newest : CustodyId → Bytes) (ops : List RenewalOp) (custody : CustodyId) (at_ : Timestamp)
    (st : CustodyState) (row : CustodyRecord) (later laterRestarted : List SchedulerOp)
    (hlater : ∀ op ∈ later ++ laterRestarted, op.Stays custody)
    (hsame : later.filterMap (SchedulerOp.outcomeOf custody) =
      laterRestarted.filterMap (SchedulerOp.outcomeOf custody)) :
    let s := run (step ring) (boot policy keepalive db now newest) ops
    let k := consecutiveFailures (outcomes ring custody (boot policy keepalive db now newest) ops)
    let further := later.filterMap (SchedulerOp.outcomeOf custody)
    0 < k → s.broker.worker.scheduler.entries custody = some st →
      s.broker.db.findCustody custody = some row → row.schedule = st.schedule →
      s.broker.worker.scheduler.envelopes custody later = backoffs keepalive k further ∧
        ((s.broker.restart at_).worker.scheduler.envelopes custody laterRestarted =
            s.broker.worker.scheduler.envelopes custody later ↔
          Capped keepalive 0 further) := by
  intro s k further hk hst hrow happlied
  have hboot : (boot policy keepalive db now newest).broker.Coherent :=
    Broker.coherent_boot policy keepalive hdb now
  have hs : s.broker.Coherent := coherent_run hboot ops
  have hcounts : s.Counts custody k := (counts_boot policy keepalive db now newest custody).run hboot
  have hpolicy : s.broker.worker.scheduler.policy = keepalive :=
    boot_policy policy keepalive db now newest ops
  obtain ⟨st₀, hst₀, hlive⟩ := hcounts.failing hk
  obtain rfl : st = st₀ := Option.some.inj (hst.symm.trans hst₀)
  -- the worker that runs on
  have hon : s.broker.worker.scheduler.envelopes custody later = backoffs keepalive k further := by
    rw [Scheduler.envelopes_eq hst (hcounts.entry st hst hlive) fun op hm =>
      hlater op (List.mem_append_left _ hm), hpolicy]
  -- the one that has been restarted
  obtain ⟨hstatus, -, -⟩ := Schedule.mk.inj happlied
  obtain ⟨d, -, hentry⟩ := restore_entry hs.integrity.custodyKey hrow (hstatus ▸ hlive)
    s.broker.worker.scheduler.policy at_
  have hrestarted : (s.broker.restart at_).worker.scheduler.envelopes custody laterRestarted =
      backoffs keepalive 0 further := by
    show (restoreKeepaliveSchedule s.broker.db (.new s.broker.worker.scheduler.policy)
      at_).envelopes custody laterRestarted = _
    rw [Scheduler.envelopes_eq hentry (n := 0) rfl fun op hm => hlater op (List.mem_append_right _ hm),
      restore_policy, ← hsame]
    exact congrArg (backoffs · 0 further) hpolicy
  refine ⟨hon, ?_⟩
  have hcap := backoffs_eq_iff (j := 0) hmax hk further
  rwa [Nat.zero_add, ← hon, ← hrestarted] at hcap

/-- One failure of a custody, and its row written. -/
def failedOnce : List RenewalOp := firstTick (.transient none) ++ lastOutcome ⟨id, id⟩

/-- One failure, then another: the running worker draws from two seconds, the
    restarted one from one. -/
theorem backoff_forgotten :
    let s := run (step ⟨1, [1]⟩) (boot {} {} (.fresh ⟨0⟩) ⟨0⟩ fun _ => [97]) failedOnce
    let later : List SchedulerOp := [.takeDue ⟨9⟩, .record ⟨"c"⟩ (.transient none) ⟨9⟩ ⟨id, id⟩]
    s.broker.worker.Idle ∧ s.broker.queue = [] ∧
      (s.broker.db.findCustody ⟨"c"⟩).map (·.failCount) = some 1 ∧
      s.broker.worker.scheduler.envelopes ⟨"c"⟩ later = [2] ∧
      (s.broker.restart ⟨9⟩).worker.scheduler.envelopes ⟨"c"⟩ later = [1] := by
  decide

/-- At a concrete run: a success in between. -/
theorem backoff_survives_iff_renewed :
    let s := run (step ⟨1, [1]⟩) (boot {} {} (.fresh ⟨0⟩) ⟨0⟩ fun _ => [97]) failedOnce
    let later : List SchedulerOp := [.takeDue ⟨9⟩, .record ⟨"c"⟩ (.success 60 false) ⟨9⟩ ⟨id, id⟩,
      .takeDue ⟨69⟩, .record ⟨"c"⟩ (.transient none) ⟨69⟩ ⟨id, id⟩]
    (s.broker.restart ⟨9⟩).worker.scheduler.envelopes ⟨"c"⟩ later =
      s.broker.worker.scheduler.envelopes ⟨"c"⟩ later := by
  intro s later
  obtain ⟨st, hst⟩ : ∃ st, s.broker.worker.scheduler.entries ⟨"c"⟩ = some st :=
    Option.isSome_iff_exists.1 (by decide)
  obtain ⟨row, hrow⟩ : ∃ row, s.broker.db.findCustody ⟨"c"⟩ = some row :=
    Option.isSome_iff_exists.1 (by decide)
  have hsched : (s.broker.db.findCustody ⟨"c"⟩).map (·.schedule) =
      (s.broker.worker.scheduler.entries ⟨"c"⟩).map (·.schedule) := by decide
  rw [hst, hrow] at hsched
  exact (backoff_survives_iff ⟨1, [1]⟩ {} {} (by decide) (.fresh ⟨0⟩) (Db.integrity_fresh ⟨0⟩) ⟨0⟩
    (fun _ => [97]) failedOnce ⟨"c"⟩ ⟨9⟩ st row later later (by simp [later, SchedulerOp.Stays]) rfl
    (by decide) hst hrow (Option.some.inj hsched)).2.2 trivial

end Renewals

end SessionBroker
