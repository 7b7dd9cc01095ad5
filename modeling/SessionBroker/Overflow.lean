/-
  The arithmetic of the limiter, for every quota that `BrokerConfig` accepts.

  * `Tame`: what a check needs of the tokens of a bucket, and keeps, so that no
    operation leaves its range.  Buckets within a usable quota are tame, and so
    are empty ones of a quota of one check in no time;
  * `arithmetic_safe_iff`: these are the quotas of which no sequence of checks
    underflows, overflows, divides by zero or overfills a bucket.
-/
import SessionBroker.Budget

namespace SessionBroker

open Runs

/-- Tokens with which no check leaves the range of its arithmetic. -/
structure Quota.Tame (q : Quota) (tokens : ℕ → Prop) : Prop where
  scale_le : scale ≤ q.capacityTokens
  per : q.perNanos64 ≠ 0
  le : ∀ n, tokens n → n ≤ q.capacityTokens
  fits : ∀ (b : Bucket) (now : ℕ), tokens b.tokens → b.level q now < 2 ^ 64
  spend : ∀ (b : Bucket) (now : ℕ), tokens b.tokens → tokens (b.spend q now).2.tokens
  first : tokens (q.capacityTokens - scale)

namespace Quota

variable {q : Quota}

theorem Usable.tame (h : q.Usable) : q.Tame (· ≤ q.capacityTokens) where
  scale_le := h.scale_le
  per := h.per_ne
  le _ hn := hn
  fits _ now hb := Bucket.level_lt h hb now
  spend _ _ _ := Bucket.spend_tokens_le
  first := Nat.sub_le ..

/-- One check in no time: there is nothing to add to. -/
theorem tame_one : (new 1 0).Tame (· = 0) where
  scale_le := by decide
  per := by decide
  le n hn := by omega
  fits b now hb := by
    have hle : saturatingMul ((now - b.last) % 2 ^ 64) (new 1 0).capacityTokens ≤ 2 ^ 64 - 1 :=
      Nat.min_le_right ..
    have hper : (new 1 0).perNanos64 = 1 := by decide
    unfold Bucket.level refill
    rw [hb, hper, Nat.div_one]
    omega
  spend b now hb := by
    have hcap : (new 1 0).capacityTokens = 1000000 := by decide
    have hper : (new 1 0).perNanos64 = 1 := by decide
    -- nothing has come back, or all there is room for
    have hall : b.available (new 1 0) now = 0 ∨ b.available (new 1 0) now = scale := by
      unfold Bucket.available Bucket.level refill saturatingMul scale
      rw [hb, hcap, hper, Nat.div_one]
      omega
    unfold Bucket.spend
    split_ifs with hallow
    · show b.available (new 1 0) now - scale = 0
      omega
    · rcases hall with hnone | hscale
      · exact hnone
      · exact absurd hscale.ge hallow
  first := by decide

end Quota

namespace Limiter

variable {checked : Bool} {q : Quota} {tokens : ℕ → Prop} {l : Limiter}

/-- What holds over any checks of a tame quota. -/
structure Safe (q : Quota) (tokens : ℕ → Prop) (l : Limiter) : Prop where
  quota : l.quota = q
  healthy : l.poisoned = false
  tokens : ∀ kb ∈ l.buckets, tokens kb.2.tokens

theorem Safe.checkAt (hq : q.Tame tokens) (h : l.Safe q tokens) (checked : Bool) (key : String)
    (now : ℕ) : (l.checkAt checked key now).2.Safe q tokens := by
  obtain rfl := h.quota
  have hfits : ∀ kb ∈ l.buckets, kb.2.level l.quota now < 2 ^ 64 :=
    fun kb hkb => hq.fits kb.2 now (h.tokens kb hkb)
  have hinserted : ∀ buckets : List (String × Bucket), buckets ⊆ l.buckets →
      ∀ kb ∈ buckets ++ [(key, .first l.quota now)], tokens kb.2.tokens := by
    intro buckets hsub kb hkb
    rcases List.mem_append.1 hkb with hkb | hkb
    · exact h.tokens kb (hsub hkb)
    · rw [List.mem_singleton.1 hkb, Bucket.first_tokens]
      exact hq.first
  obtain ⟨d, buckets, hcheck, htokens⟩ : ∃ d buckets,
      l.checkLocked checked key now = some (d, buckets) ∧ ∀ kb ∈ buckets, tokens kb.2.tokens := by
    cases hfound : l.buckets.lookup key with
    | some b =>
      have hb := h.tokens _ (Lookup.mem_of_lookup hfound)
      have hcheck : b.check checked l.quota now = some (b.spend l.quota now) :=
        Bucket.check_of_fits hq.per (hq.fits b now hb)
      exact ⟨_, _, checkLocked_tracked hfound hcheck,
        Lookup.forall_replace (P := fun b : Bucket => tokens b.tokens) h.tokens (hq.spend b now hb)⟩
    | none =>
      have hsub : l.short now ⊆ l.buckets := List.filter_sublist.subset
      rw [checkLocked_untracked hq.per hq.scale_le hfits hfound]
      split_ifs
      · exact ⟨_, _, rfl, fun kb hkb => h.tokens kb (hsub hkb)⟩
      · exact ⟨_, _, rfl, hinserted _ hsub⟩
      · exact ⟨_, _, rfl, hinserted _ (List.Subset.refl _)⟩
  have hnext : l.checkAt checked key now = (some d, { l with buckets }) := by
    unfold Limiter.checkAt
    rw [h.healthy, hcheck]
    rfl
  rw [hnext]
  exact ⟨rfl, h.healthy, htokens⟩

theorem safe_after (hq : q.Tame tokens) (checked : Bool) (capacity : ℕ)
    (calls : List (String × ℕ)) : ((new q capacity).after checked calls).Safe q tokens := by
  induction calls using List.reverseRecOn with
  | nil => exact ⟨rfl, rfl, by simp [after, new]⟩
  | append_singleton calls call ih =>
    rw [after_concat]
    exact ih.checkAt hq checked call.1 call.2

/-- Over these checks no operation leaves its range, in a build that looks, so
    that nothing panics; and no bucket is overfilled, in any build. -/
def ArithmeticSafe (q : Quota) (capacity : ℕ) (calls : List (String × ℕ)) : Prop :=
  ((new q capacity).after true calls).poisoned = false ∧
    ∀ checked, ∀ kb ∈ ((new q capacity).after checked calls).buckets,
      kb.2.tokens ≤ q.burst.toNat * scale

/-! ## Where it is not -/

/-- The first check of all. -/
theorem after_first (hscale : scale ≤ q.capacityTokens) (checked : Bool) (capacity : ℕ) (key : String)
    (now : ℕ) : (new q capacity).after checked [(key, now)] =
      { new q capacity with buckets := [(key, .first q now)] } := by
  have hroom : ¬ max capacity 1 ≤ 0 := by omega
  have hlocked : (new q capacity).checkLocked checked key now =
      some (.allow, [(key, .first q now)]) := by
    show (if max capacity 1 ≤ 0 then _ else insertNew checked q [] key now) = _
    rw [if_neg hroom, insertNew_eq hscale, List.nil_append]
  show ((new q capacity).checkAt checked key now).2 = _
  unfold Limiter.checkAt
  rw [hlocked]
  rfl

theorem poisoned_of_none (hhealthy : l.poisoned = false) {key : String} {now : ℕ}
    (hnone : l.checkLocked checked key now = none) :
    (l.checkAt checked key now).2.poisoned = true := by
  unfold Limiter.checkAt
  rw [hhealthy, hnone]
  rfl

/-- A panic at the second check, of the same key. -/
theorem poisoned_second (hscale : scale ≤ q.capacityTokens) (capacity now : ℕ)
    (hnone : (Bucket.first q 0).refilled true q now = none) :
    ((new q capacity).after true [("", 0), ("", now)]).poisoned = true := by
  have hafter : (new q capacity).after true [("", 0), ("", now)] =
      (((new q capacity).after true [("", 0)]).checkAt true "" now).2 := rfl
  rw [hafter, after_first hscale]
  exact poisoned_of_none rfl (checkLocked_none List.lookup_cons_self hnone)

/-- All that can come back in no time, on top of what is there. -/
theorem refilled_overflows (hper : q.perNanos64 = 1) (hcap : 2 * scale ≤ q.capacityTokens) :
    (Bucket.first q 0).refilled true q (2 ^ 64 - 1) = none := by
  have hrefilled : (Bucket.first q 0).refilled true q (2 ^ 64 - 1) =
      (div64 (saturatingMul ((2 ^ 64 - 1 - 0) % 2 ^ 64) q.capacityTokens) q.perNanos64).bind
        fun refill => fit64 true ((Bucket.first q 0).tokens + refill) := rfl
  have hscale : 1 ≤ scale := by decide
  have hsat : saturatingMul ((2 ^ 64 - 1 - 0) % 2 ^ 64) q.capacityTokens = 2 ^ 64 - 1 := by
    unfold saturatingMul
    exact Nat.min_eq_right (Nat.le_mul_of_pos_right _ (by omega))
  rw [hrefilled, hper, div64_of_ne (by decide), hsat, Option.bind_some, Bucket.first_tokens, fit64,
    if_neg (by omega)]
  rfl

/-- **The arithmetic is safe** over every sequence of checks exactly if there is
    a burst, the window as a `u64` of nanoseconds is not zero, and a window of
    zero seconds comes with a burst of one. -/
theorem arithmetic_safe_iff (burst : UInt32) (perSecs capacity : ℕ) :
    (∀ calls : List (String × ℕ), (calls.map (·.2)).Pairwise (· ≤ ·) →
      ArithmeticSafe (.new burst perSecs) capacity calls) ↔
    1 ≤ burst.toNat ∧ (Quota.new burst perSecs).perNanos64 ≠ 0 ∧
      (1 ≤ perSecs ∨ burst.toNat = 1) := by
  set q := Quota.new burst perSecs with hq
  have hcap : q.capacityTokens = burst.toNat * scale := rfl
  constructor
  · intro h
    have hburst : 1 ≤ burst.toNat := by
      by_contra hzero
      have hnone : (new q capacity).checkLocked true "" 0 = none := by
        have hsub : sub64 true q.capacityTokens scale = none := by
          rw [hcap, Nat.lt_one_iff.1 (not_le.1 hzero), Nat.zero_mul]
          rfl
        show (if max capacity 1 ≤ 0 then _ else insertNew true q [] "" 0) = _
        rw [if_neg (by omega)]
        unfold insertNew
        rw [hsub]
        rfl
      have hsafe : ((new q capacity).checkAt true "" 0).2.poisoned = false :=
        (h [("", 0)] (List.pairwise_singleton ..)).1
      rw [poisoned_of_none rfl hnone] at hsafe
      cases hsafe
    have hscale : scale ≤ q.capacityTokens := Nat.le_mul_of_pos_left _ hburst
    have hsecond : ∀ now, (Bucket.first q 0).refilled true q now ≠ none := by
      intro now hnone
      have hsafe := (h [("", 0), ("", now)] (by simp)).1
      rw [poisoned_second hscale capacity now hnone] at hsafe
      cases hsafe
    have hper : q.perNanos64 ≠ 0 := fun hzero => hsecond 0 (Bucket.refilled_divided hzero)
    refine ⟨hburst, hper, ?_⟩
    by_contra hnot
    obtain ⟨hsecs, hone⟩ := not_or.1 hnot
    refine hsecond (2 ^ 64 - 1) (refilled_overflows ?_ ?_)
    · rw [hq, Nat.lt_one_iff.1 (not_le.1 hsecs)]
      rfl
    · rw [hcap]
      exact Nat.mul_le_mul_right scale (by omega : 2 ≤ burst.toNat)
  · rintro ⟨hburst, hper, hwindow⟩ calls -
    obtain ⟨tokens, htame⟩ : ∃ tokens, q.Tame tokens := by
      by_cases hsecs : 1 ≤ perSecs
      · exact ⟨_, (Quota.new_usable hburst hsecs hper).tame⟩
      · have hone : burst = 1 := UInt32.toNat_inj.1 (hwindow.resolve_left hsecs)
        rw [hq, hone, Nat.lt_one_iff.1 (not_le.1 hsecs)]
        exact ⟨_, Quota.tame_one⟩
    refine ⟨(safe_after htame true capacity calls).healthy, fun checked kb hkb => ?_⟩
    have hle := htame.le _ ((safe_after htame checked capacity calls).tokens kb hkb)
    rwa [hcap] at hle

/-- With no burst, the first check panics, and whoever calls next is allowed; or
    it wraps, and the bucket is worth 18 trillion checks. -/
theorem arithmetic_unsafe :
    ((new (.new 0 60) 16).after true [("k", 0)]).poisoned = true ∧
    ((new (.new 0 60) 16).after false [("k", 0)]).buckets = [("k", ⟨2 ^ 64 - 1000000, 0⟩)] ∧
    ¬ ∀ calls : List (String × ℕ), (calls.map (·.2)).Pairwise (· ≤ ·) →
      ArithmeticSafe (.new 0 60) 16 calls := by
  have hpoisoned : ((new (.new 0 60) 16).after true [("k", 0)]).poisoned = true := by
    decide +kernel
  refine ⟨hpoisoned, by decide +kernel, fun h => ?_⟩
  have hsafe := (h [("k", 0)] (by decide)).1
  rw [hpoisoned] at hsafe
  cases hsafe

end Limiter

end SessionBroker
