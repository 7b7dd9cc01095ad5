/-
  When the whole budget of a key comes back.

  The refill saturates at `u64`, so that however long a key is idle no more than
  `(2 ^ 64 - 1) / per` millionths of a token come back.

  * `full_iff`: a bucket is full if what it lacks is within that bound, and
    within what the idle time brings;
  * `budget_returns_iff`: for every quota of the configuration and every bucket
    of a run.
-/
import SessionBroker.Budget

namespace SessionBroker

namespace Bucket

variable {q : Quota} {b : Bucket} {now : ℕ}

/-- The multiplication is undone where it does not saturate. -/
theorem le_refill_iff (hq : q.Usable) {lacking elapsed : ℕ} : lacking ≤ q.refill elapsed ↔
    lacking * q.perNanos64 < 2 ^ 64 ∧
      lacking * q.perNanos64 ≤ elapsed % 2 ^ 64 * q.capacityTokens := by
  have hper := hq.per
  unfold Quota.refill saturatingMul
  rw [Nat.le_div_iff_mul_le (by omega)]
  omega

/-- **Full buckets.** -/
theorem full_iff (hq : q.Usable) : b.Full q now ↔
    (q.capacityTokens - b.tokens) * q.perNanos64 < 2 ^ 64 ∧
      (q.capacityTokens - b.tokens) * q.perNanos64 ≤ (now - b.last) % 2 ^ 64 * q.capacityTokens := by
  rw [← le_refill_iff hq, Nat.sub_le_iff_le_add', Full, level]

/-- Nothing comes back at the instant of a check. -/
theorem available_spend (hallow : scale ≤ b.available q now) :
    (b.spend q now).2.available q now = b.available q now - scale := by
  have hle : b.available q now ≤ q.capacityTokens := available_le
  unfold spend
  rw [if_pos hallow]
  generalize b.available q now = tokens at *
  have hlevel : (⟨tokens - scale, now⟩ : Bucket).level q now = tokens - scale := by
    unfold level
    rw [Nat.sub_self, Quota.refill_zero, Nat.add_zero]
  unfold available
  rw [hlevel]
  exact Nat.min_eq_left (by omega)

end Bucket

namespace Limiter

variable {checked : Bool} {q : Quota} {l : Limiter} {key : String} {now : ℕ}

/-- Checks of one key at one instant. -/
theorem Sound.burst_iff (h : l.Sound q) {b : Bucket} (hb : l.bucket key = some b) (n : ℕ) :
    (∀ e ∈ l.trace checked (List.replicate n (key, now)), e.2 = some .allow) ↔
      n * scale ≤ b.available q now := by
  induction n generalizing l b with
  | zero => simp [trace]
  | succ n ih =>
    obtain ⟨d, b', l', hspend, hcheck, hsound, hown, -⟩ := h.checkAt_tracked hb checked now
    have hallow_iff : d = .allow ↔ scale ≤ b.available q now := by
      rw [← Bucket.spend_allow_iff, hspend]
    rw [List.replicate_succ, trace, hcheck]
    dsimp only
    rw [List.forall_mem_cons, Nat.succ_mul, ih hsound hown, Option.some.injEq, hallow_iff]
    have hb' : b' = (b.spend q now).2 := by rw [hspend]
    rw [hb']
    constructor
    · rintro ⟨hallow, hrest⟩
      rw [Bucket.available_spend hallow] at hrest
      omega
    · intro hall
      have hallow : scale ≤ b.available q now := by omega
      rw [Bucket.available_spend hallow]
      omega

/-- A bucket counts as full if `retain` drops it. -/
theorem Sound.dropped_iff (h : l.Sound q) {b : Bucket} (hb : l.bucket key = some b) :
    (∃ kept, unfilled checked q now l.buckets = some kept ∧ kept.lookup key = none) ↔
      b.Full q now := by
  obtain rfl := h.quota
  have hshort : unfilled checked l.quota now l.buckets = some (l.short now) :=
    unfilled_eq h.usable h.tokens
  have hlookup : (l.short now).lookup key = (l.bucket key).filter fun b => ¬b.Full l.quota now :=
    Lookup.lookup_filter h.kept.nodup _
  rw [hb] at hlookup
  constructor
  · rintro ⟨kept, hkept, hnone⟩
    rw [hshort, Option.some.injEq] at hkept
    rw [hkept, hnone] at hlookup
    by_contra hnot
    simp [Option.filter, hnot] at hlookup
  · intro hfull
    refine ⟨_, hshort, ?_⟩
    rw [hlookup]
    simp [Option.filter, hfull]

/-- **The whole budget**: after an idle time a bucket counts as full, and allows
    the whole burst at once, exactly if what it lacks, in millionths times
    nanoseconds, is within `u64` and within what the time, as a `u64`, brings. -/
theorem budget_returns_iff (checked : Bool) (burst : UInt32) (perSecs capacity : ℕ)
    (calls : List (String × ℕ)) (key : String) (b : Bucket) (now : ℕ) (hburst : 1 ≤ burst.toNat)
    (hlow : 1 ≤ perSecs) (hhigh : perSecs * 1000000000 ≤ 2 ^ 60)
    (htracked : ((new (.new burst perSecs) capacity).after checked calls).buckets.lookup key = some b) :
    (∃ kept, unfilled checked (.new burst perSecs) now
        ((new (.new burst perSecs) capacity).after checked calls).buckets = some kept ∧
        kept.lookup key = none) ∧
      (∀ e ∈ ((new (.new burst perSecs) capacity).after checked calls).trace checked
        (List.replicate burst.toNat (key, now)), e.2 = some .allow) ↔
    ((Quota.new burst perSecs).capacityTokens - b.tokens) * (perSecs * 1000000000) < 2 ^ 64 ∧
      ((Quota.new burst perSecs).capacityTokens - b.tokens) * (perSecs * 1000000000) ≤
        (now - b.last) % 2 ^ 64 * (Quota.new burst perSecs).capacityTokens := by
  have hper : (Quota.new burst perSecs).perNanos64 = perSecs * 1000000000 :=
    Quota.perNanos64_eq (q := .new burst perSecs) (by show 1 ≤ perSecs * _; omega)
      (by show perSecs * _ < _; omega)
  have hq : (Quota.new burst perSecs).Usable :=
    Quota.new_usable hburst hlow (by rw [hper]; omega)
  obtain ⟨hsound, -⟩ := (new_sound hq capacity).after checked calls
  rw [hsound.dropped_iff htracked, hsound.burst_iff htracked, ← hper, ← Bucket.full_iff hq]
  have hall : burst.toNat * scale ≤ b.available (.new burst perSecs) now ↔
      b.Full (.new burst perSecs) now := by
    show (Quota.new burst perSecs).capacityTokens ≤ min _ _ ↔ _ ≤ _
    rw [Nat.le_min]
    exact and_iff_left le_rfl
  rw [hall, and_self]

/-- Ten checks use up a budget of ten a minute, and in a minute it is back. -/
theorem budget_returns_minute :
    ((new (.new 10 60) 16).after true (List.replicate 10 ("k", 0))).buckets.lookup "k" =
      some ⟨0, 0⟩ ∧
    ∀ e ∈ ((new (.new 10 60) 16).after true (List.replicate 10 ("k", 0))).trace true
      (List.replicate 10 ("k", 60000000000)), e.2 = some .allow :=
  ⟨by decide +kernel,
    ((budget_returns_iff true 10 60 16 (List.replicate 10 ("k", 0)) "k" ⟨0, 0⟩ 60000000000
      (by decide) (by decide) (by decide) (by decide +kernel)).2 (by decide)).2⟩

/-- Of a budget of ten an hour only five come back. -/
theorem budget_lost :
    ((new (.new 10 3600) 16).after true (List.replicate 10 ("k", 0))).buckets.lookup "k" =
      some ⟨0, 0⟩ ∧
    ¬((∃ kept, unfilled true (.new 10 3600) 3600000000000
        ((new (.new 10 3600) 16).after true (List.replicate 10 ("k", 0))).buckets = some kept ∧
        kept.lookup "k" = none) ∧
      ∀ e ∈ ((new (.new 10 3600) 16).after true (List.replicate 10 ("k", 0))).trace true
        (List.replicate 10 ("k", 3600000000000)), e.2 = some .allow) :=
  ⟨by decide +kernel, fun h => absurd h.2 (by decide +kernel)⟩

end Limiter

end SessionBroker
