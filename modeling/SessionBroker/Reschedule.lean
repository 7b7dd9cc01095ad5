/-
  When a custody is tried again after a transient failure (`record` and
  `backoff_secs`, `keepalive.rs`).

  * `Draw.exact`: the jitter without rounding of its product;
  * `transient_cases`: the entry after the failure, and its delay;
  * `Rescheduled`: neither at once nor later than the envelope allows, and not
    before what the provider asked for.  `transient_rescheduled_iff` says when
    that is so: `backoff_secs` caps a `Retry-After` too, lets one of zero
    through, and a delay from `2^63` seconds on points into the past.
-/
import SessionBroker.Backoff
import Mathlib.Data.Rat.Floor

namespace SessionBroker

open Runs

/-- The failures since the last success, after `n` of them.  `Permanent` does
    not touch the count. -/
def RefreshOutcome.inARow (n : ℕ) : RefreshOutcome → ℕ
  | transient _ => n + 1
  | success .. => 0
  | permanent => n

/-- The draw of the jitter `u`, with the product rounded down only. -/
def Draw.exact (u : ℚ) (delay : ℕ → ℕ) : Draw := ⟨delay, fun e => ⌊(e : ℚ) * u⌋₊⟩

/-- What a failure, the `failures`-th in a row, may do to the next attempt. -/
def Rescheduled (policy : KeepalivePolicy) (failures : ℕ) (retryAfter : Option ℕ)
    (now next : Timestamp) : Prop :=
  now < next ∧
    match retryAfter with
    | none => next.secs ≤ now.secs + max 1 policy.maxBackoffSecs ∧
      next.secs ≤ now.secs +
        max 1 (min (policy.baseBackoffSecs * 2 ^ (failures - 1)) policy.maxBackoffSecs)
    | some secs => now.secs + secs ≤ next.secs

/-- What it takes. -/
def Reschedules (policy : KeepalivePolicy) (failures : ℕ) (retryAfter : Option ℕ)
    (now : Timestamp) (u : ℚ) : Prop :=
  match retryAfter with
  | none => (backoffEnvelope policy (failures - 1) : ℚ) * u < 2 ^ 63 ∧ now.secs + 1 < 2 ^ 63
  | some secs => 1 ≤ secs ∧ secs ≤ policy.maxBackoffSecs ∧ secs < 2 ^ 63 ∧ now.secs + secs < 2 ^ 63

/-! ## The delay -/

section
variable {policy : KeepalivePolicy} {now : Timestamp} {u : ℚ}

/-- The envelope is the base doubled once for each failure before, or less. -/
theorem envelope_le (policy : KeepalivePolicy) (n : ℕ) :
    backoffEnvelope policy n ≤ min (policy.baseBackoffSecs * 2 ^ n) policy.maxBackoffSecs := by
  have hpow : 2 ^ min n 16 ≤ 2 ^ n := Nat.pow_le_pow_right (by omega) (Nat.min_le_left ..)
  have hmul := Nat.mul_le_mul_left policy.baseBackoffSecs hpow
  unfold backoffEnvelope
  omega

theorem exact_le (hu : u < 1) (delay : ℕ → ℕ) (e : ℕ) : (Draw.exact u delay).scaled e ≤ e := by
  refine Nat.floor_le_of_le ?_
  have he : (0 : ℚ) ≤ e := Nat.cast_nonneg e
  nlinarith

/-- A delay is one. -/
theorem lt_plusSecs_iff (hnow : now.IsI64) {secs : ℕ} (h64 : secs < 2 ^ 64) :
    now < now.plusSecs secs ↔ 1 ≤ secs ∧ secs < 2 ^ 63 ∧ now.secs + 1 < 2 ^ 63 := by
  have hone : now.secs + (1 : ℕ) ≤ (now.plusSecs secs).secs ↔ _ :=
    Timestamp.add_le_plusSecs_iff hnow h64 (Or.inl le_rfl)
  rw [Nat.cast_one] at hone
  exact hone

/-- **No `Retry-After`**: the delay is within the envelope, so only the ends of
    `i64` are in its way. -/
theorem rescheduled_none_iff (hmax : policy.maxBackoffSecs < 2 ^ 64) (hnow : now.IsI64)
    (h0 : 0 ≤ u) (hu : u < 1) (delay : ℕ → ℕ) (n : ℕ) :
    Rescheduled policy (n + 1) none now
        (now.plusSecs (backoffSecs policy n none (.exact u delay))) ↔
      Reschedules policy (n + 1) none now u := by
  have henv := envelope_le policy n
  have hle := exact_le hu delay (backoffEnvelope policy n)
  have hfits : (Draw.exact u delay).scaled (backoffEnvelope policy n) < 2 ^ 63 ↔
      (backoffEnvelope policy n : ℚ) * u < 2 ^ 63 := by
    rw [Draw.exact, Nat.floor_lt (mul_nonneg (Nat.cast_nonneg _) h0)]
    norm_num
  rw [backoffSecs_none]
  generalize (Draw.exact u delay).scaled (backoffEnvelope policy n) = d at hle hfits ⊢
  have h64 : max d 1 < 2 ^ 64 := by omega
  have hup := Timestamp.plusSecs_le_add hnow h64
  simp only [Rescheduled, Reschedules, Nat.add_sub_cancel]
  rw [← hfits, lt_plusSecs_iff hnow h64]
  constructor
  · rintro ⟨hnext, -⟩
    omega
  · intro h
    refine ⟨by omega, ?_, ?_⟩ <;> omega

theorem backoffSecs_some (policy : KeepalivePolicy) (n secs : ℕ) (draw : Draw) :
    backoffSecs policy n (some secs) draw = min secs policy.maxBackoffSecs := rfl

/-- What a provider asks for is capped like the rest. -/
theorem obeyed_iff (hmax : policy.maxBackoffSecs < 2 ^ 64) (hnow : now.IsI64) (n secs : ℕ)
    (draw : Draw) :
    now.secs + secs ≤ (now.plusSecs (backoffSecs policy n (some secs) draw)).secs ↔
      secs ≤ policy.maxBackoffSecs ∧ secs < 2 ^ 63 ∧ now.secs + secs < 2 ^ 63 := by
  have hcap : min secs policy.maxBackoffSecs ≤ secs := Nat.min_le_left ..
  rw [backoffSecs_some, Timestamp.add_le_plusSecs_iff hnow (by omega) (Or.inr hcap)]
  constructor <;> intro h <;> omega

/-- **With `Retry-After`**: it is kept unless it is zero, beyond the cap or
    beyond the end of time. -/
theorem rescheduled_some_iff (hmax : policy.maxBackoffSecs < 2 ^ 64) (hnow : now.IsI64)
    (draw : Draw) (n secs : ℕ) :
    Rescheduled policy (n + 1) (some secs) now
        (now.plusSecs (backoffSecs policy n (some secs) draw)) ↔
      Reschedules policy (n + 1) (some secs) now u := by
  have hobey := obeyed_iff hmax hnow n secs draw
  rw [backoffSecs_some] at hobey ⊢
  have hcap : min secs policy.maxBackoffSecs < 2 ^ 64 := by omega
  simp only [Rescheduled, Reschedules]
  rw [hobey, lt_plusSecs_iff hnow hcap]
  constructor <;> intro h <;> omega

end

namespace Scheduler

variable {s : Scheduler} {custody : CustodyId} {st : CustodyState} {n : ℕ} {now : Timestamp}

/-! ## The count over a run -/

/-- One operation, on the count. -/
theorem step_inARow {op : SchedulerOp} (h : s.entries custody = some st)
    (hn : st.failCount = min n (2 ^ 32 - 1)) (hstays : op.Stays custody) :
    ∃ st', (s.step op).entries custody = some st' ∧
      st'.failCount =
        min ((op.outcomeOf custody).toList.foldl RefreshOutcome.inARow n) (2 ^ 32 - 1) := by
  cases ho : op.outcomeOf custody with
  | none =>
    obtain ⟨st', hst', hcount⟩ := step_failCount h hstays ho
    exact ⟨st', hst', hcount.trans hn⟩
  | some outcome =>
    obtain ⟨now, draw, rfl⟩ := SchedulerOp.eq_record ho
    obtain ⟨st', hst', -, hcount⟩ := record_failCount h outcome now draw
    refine ⟨st', hst', hcount.trans ?_⟩
    rw [hn]
    cases outcome with
    | transient retryAfterSecs =>
      show min (min n (2 ^ 32 - 1) + 1) (2 ^ 32 - 1) = min (n + 1) (2 ^ 32 - 1)
      omega
    | success lifetimeSecs rotatedRefresh => rfl
    | permanent => rfl

theorem run_inARow (h : s.entries custody = some st) (hn : st.failCount = min n (2 ^ 32 - 1))
    {ops : List SchedulerOp} (hops : ∀ op ∈ ops, op.Stays custody) :
    ∃ st', (run step s ops).entries custody = some st' ∧
      st'.failCount =
        min ((ops.filterMap (SchedulerOp.outcomeOf custody)).foldl RefreshOutcome.inARow n)
          (2 ^ 32 - 1) := by
  induction ops generalizing s st n with
  | nil => exact ⟨st, h, hn⟩
  | cons op ops ih =>
    obtain ⟨st', hst', hcount⟩ := step_inARow h hn (hops op List.mem_cons_self)
    obtain ⟨st'', hst'', hcount'⟩ := ih hst' hcount fun op' hm => hops op' (List.mem_cons_of_mem _ hm)
    refine ⟨st'', hst'', ?_⟩
    rw [hcount', List.filterMap_cons]
    cases op.outcomeOf custody <;> rfl

theorem run_policy (s : Scheduler) (ops : List SchedulerOp) : (run step s ops).policy = s.policy := by
  induction ops generalizing s with
  | nil => rfl
  | cons op ops ih => exact (ih (s.step op)).trans (step_policy s op)

variable (now) in
/-- **The entry after a transient failure.** -/
theorem transient_entry (h : s.entries custody = some st) (hn : st.failCount = min n (2 ^ 32 - 1))
    (retryAfter : Option ℕ) (draw : Draw) :
    ∃ st', (s.record custody (.transient retryAfter) now draw).1.entries custody = some st' ∧
      st'.nextRefresh = now.plusSecs (backoffSecs s.policy n retryAfter draw) := by
  rw [record, h]
  refine ⟨_, (put_entries ..).trans (if_pos rfl), ?_⟩
  dsimp only
  cases retryAfter with
  | none => rw [backoffSecs_none, backoffSecs_none, hn, envelope_saturated]
  | some secs => rfl

/-- **When a transient failure is rescheduled within bounds**, after any run. -/
theorem transient_rescheduled_iff {s₀ : Scheduler} {st₀ : CustodyState}
    (h₀ : s₀.entries custody = some st₀) (hnew : st₀.failCount = 0) {ops : List SchedulerOp}
    (hops : ∀ op ∈ ops, op.Stays custody) (hmax : s₀.policy.maxBackoffSecs < 2 ^ 64)
    (hnow : now.IsI64) {u : ℚ} (h0 : 0 ≤ u) (hu : u < 1) (delay : ℕ → ℕ) (retryAfter : Option ℕ) :
    ∃ st, ((run step s₀ ops).record custody (.transient retryAfter) now
        (.exact u delay)).1.entries custody = some st ∧
      (Rescheduled s₀.policy
          ((ops.filterMap (SchedulerOp.outcomeOf custody)).foldl RefreshOutcome.inARow 0 + 1)
          retryAfter now st.nextRefresh ↔
        Reschedules s₀.policy
          ((ops.filterMap (SchedulerOp.outcomeOf custody)).foldl RefreshOutcome.inARow 0 + 1)
          retryAfter now u) ∧
      ∀ secs, retryAfter = some secs →
        (now.secs + secs ≤ st.nextRefresh.secs ↔
          secs ≤ s₀.policy.maxBackoffSecs ∧ secs < 2 ^ 63 ∧ now.secs + secs < 2 ^ 63) := by
  obtain ⟨st, hst, hcount⟩ := run_inARow h₀ (n := 0) hnew hops
  obtain ⟨st', hst', hnext⟩ := transient_entry now hst hcount retryAfter (.exact u delay)
  rw [run_policy] at hnext
  refine ⟨st', hst', ?_, ?_⟩
  · rw [hnext]
    cases retryAfter with
    | none => exact rescheduled_none_iff hmax hnow h0 hu delay _
    | some secs => exact rescheduled_some_iff hmax hnow _ _ secs
  · rintro secs rfl
    rw [hnext]
    exact obeyed_iff hmax hnow _ secs _

/-! ## The default policy -/

/-- A scheduler that holds one custody which never failed. -/
def holding (policy : KeepalivePolicy) : Scheduler :=
  (new policy).insertRestored ⟨"c"⟩ .ok ⟨3600⟩ ⟨2160⟩

/-- The third failure in a row, drawn at one half, comes again after two seconds. -/
theorem transient_rescheduled_third :
    let ops : List SchedulerOp := [.record ⟨"c"⟩ (.transient none) ⟨10⟩ (.exact 0 id),
      .record ⟨"c"⟩ (.transient none) ⟨20⟩ (.exact 0 id)]
    ∃ st, ((run step (holding {}) ops).record ⟨"c"⟩ (.transient none) ⟨30⟩
        (.exact (1 / 2) id)).1.entries ⟨"c"⟩ = some st ∧
      Rescheduled {} 3 none ⟨30⟩ st.nextRefresh := by
  intro ops
  have hheld : (holding {}).entries ⟨"c"⟩ = some ⟨.ok, ⟨3600⟩, ⟨2160⟩, 0, false⟩ := rfl
  have hops : ∀ op ∈ ops, op.Stays ⟨"c"⟩ := by simp [ops, SchedulerOp.Stays]
  have hnow : (⟨30⟩ : Timestamp).IsI64 := by decide
  have hhalf : (0 : ℚ) ≤ 1 / 2 := by norm_num
  obtain ⟨st, hst, hiff, -⟩ := transient_rescheduled_iff hheld rfl hops (by decide) hnow hhalf
    (by norm_num) id none
  refine ⟨st, hst, hiff.2 ?_⟩
  refine ⟨?_, by decide⟩
  have henv : backoffEnvelope (holding {}).policy 2 = 4 := by decide
  show ((backoffEnvelope (holding {}).policy 2 : ℕ) : ℚ) * (1 / 2) < 2 ^ 63
  rw [henv]
  norm_num

/-- **A provider is not waited for**: it asked for ten minutes, the next attempt
    comes in five.  One that asked for none gets the next attempt at once. -/
theorem retry_after_capped :
    (∃ st, ((holding {}).record ⟨"c"⟩ (.transient (some 600)) ⟨10⟩ (.exact 0 id)).1.entries ⟨"c"⟩ =
        some st ∧ st.nextRefresh = ⟨310⟩ ∧ ¬ Rescheduled {} 1 (some 600) ⟨10⟩ st.nextRefresh) ∧
      ∃ st, ((holding {}).record ⟨"c"⟩ (.transient (some 0)) ⟨10⟩ (.exact 0 id)).1.entries ⟨"c"⟩ =
        some st ∧ st.nextRefresh = ⟨10⟩ := by
  have h600 : (⟨10⟩ : Timestamp).plusSecs (backoffSecs {} 0 (some 600) (.exact 0 id)) = ⟨310⟩ := by
    rw [backoffSecs_some]
    decide
  have h0 : (⟨10⟩ : Timestamp).plusSecs (backoffSecs {} 0 (some 0) (.exact 0 id)) = ⟨10⟩ := by
    rw [backoffSecs_some]
    decide
  have hheld : (holding {}).entries ⟨"c"⟩ = some ⟨.ok, ⟨3600⟩, ⟨2160⟩, 0, false⟩ := rfl
  obtain ⟨st, hst, hnext⟩ := transient_entry (n := 0) ⟨10⟩ hheld rfl (some 600) (.exact 0 id)
  obtain ⟨st', hst', hnext'⟩ := transient_entry (n := 0) ⟨10⟩ hheld rfl (some 0) (.exact 0 id)
  refine ⟨⟨st, hst, hnext.trans h600, ?_⟩, st', hst', hnext'.trans h0⟩
  rw [hnext.trans h600]
  rintro ⟨-, hwish⟩
  exact absurd hwish (by decide)

end Scheduler

end SessionBroker
