/-
  Whether a caller who waits for `Retry-After` is let in.

  The wait is rounded down to nanoseconds and then to seconds, though never
  below one second.

  * `enough_iff`: the seconds are enough if they are one and cover the wait, or
    if the wait is a whole number of seconds and nothing saturates;
  * `retry_after_iff`: for every refusal of every run, and whatever is asked for
    other keys in between.
-/
import SessionBroker.Refill
import SessionBroker.TokenRoute

namespace SessionBroker

/-- The seconds of the header. -/
def retryAfterSecs (retryAfterNanos : ℕ) : ℕ := max (retryAfterNanos / 1000000000) 1

theorem retry_after_header (retryAfterNanos : ℕ) :
    ("retry-after", toString (retryAfterSecs retryAfterNanos)) ∈ (rateLimited retryAfterNanos).headers := by
  unfold rateLimited retryAfterSecs
  simp

/-! ## One bucket -/

/-- Rounding down keeps what is no more than one unit, or a number of units. -/
theorem le_floor_iff {m unit : ℕ} (hunit : 0 < unit) :
    m ≤ max (m / unit) 1 * unit ↔ m ≤ unit ∨ unit ∣ m := by
  constructor
  · intro hle
    by_cases hone : m ≤ unit
    · exact Or.inl hone
    · have hdiv : 1 ≤ m / unit := (Nat.le_div_iff_mul_le hunit).2 (by omega)
      rw [Nat.max_eq_left hdiv] at hle
      have hback := Nat.div_mul_le_self m unit
      exact Or.inr ⟨m / unit, by rw [Nat.mul_comm]; omega⟩
  · rintro (hone | ⟨n, rfl⟩)
    · calc m ≤ 1 * unit := by omega
        _ ≤ max (m / unit) 1 * unit := Nat.mul_le_mul_right _ (Nat.le_max_right ..)
    · rw [Nat.mul_div_cancel_left _ hunit, Nat.mul_comm]
      exact Nat.mul_le_mul_right _ (Nat.le_max_left ..)

/-- What `missing` millionths cost is within `u64`, and within a second or a
    whole number of them. -/
def Quota.WholeWait (q : Quota) (missing : ℕ) : Prop :=
  missing * q.perNanos64 < 2 ^ 64 ∧
    (missing * q.perNanos64 ≤ 1000000000 * q.capacityTokens ∨
      1000000000 * q.capacityTokens ∣ missing * q.perNanos64)

instance (q : Quota) (missing : ℕ) : Decidable (q.WholeWait missing) :=
  inferInstanceAs (Decidable (_ ∧ (_ ∨ _)))

namespace Bucket

variable {q : Quota} {b : Bucket} {now : ℕ}

/-- The seconds of a refusal, in the unit of its cost. -/
theorem retryAfterSecs_wait (hq : q.Usable) : retryAfterSecs (b.wait q now) =
    max (saturatingMul (scale - b.available q now) q.perNanos64 / (1000000000 * q.capacityTokens))
      1 := by
  have hscale := hq.scale_le
  have hpos : 1 ≤ q.capacityTokens := le_trans (by decide) hscale
  unfold retryAfterSecs wait
  rw [Nat.max_eq_left hpos, Nat.mul_comm, ← Nat.div_div_eq_div_mul]
  generalize saturatingMul (scale - b.available q now) q.perNanos64 / q.capacityTokens = waitNanos
  omega

/-- The header does not leave `u64`. -/
theorem retryAfterSecs_lt (hq : q.Usable) :
    retryAfterSecs (b.wait q now) * 1000000000 < 2 ^ 64 := by
  have hscale : 1000000 ≤ q.capacityTokens := hq.scale_le
  have hsaturated : saturatingMul (scale - b.available q now) q.perNanos64 ≤ 2 ^ 64 - 1 :=
    Nat.min_le_right ..
  have hwait : saturatingMul (scale - b.available q now) q.perNanos64 / max q.capacityTokens 1 ≤
      (2 ^ 64 - 1) / 1000000 :=
    (Nat.div_le_div_right hsaturated).trans (Nat.div_le_div_left (by omega) (by decide))
  unfold retryAfterSecs wait
  generalize saturatingMul (scale - b.available q now) q.perNanos64 / max q.capacityTokens 1 =
    waitNanos at *
  omega

/-- **Waiting for the header**: what is left at the refusal, and what comes back
    in its seconds, makes a token. -/
theorem enough_iff (hq : q.Usable) (hrefused : ¬scale ≤ b.available q now) :
    scale ≤ (⟨b.available q now, now⟩ : Bucket).available q
        (now + retryAfterSecs (b.wait q now) * 1000000000) ↔
      q.WholeWait (scale - b.available q now) := by
  have hcap := hq.scale_le
  have hpos : 0 < scale := by decide
  have hlt : retryAfterSecs (b.wait q now) * 1000000000 < 2 ^ 64 := retryAfterSecs_lt hq
  have hsecs : retryAfterSecs (b.wait q now) = _ := retryAfterSecs_wait hq
  generalize retryAfterSecs (b.wait q now) = secs at *
  generalize b.available q now = tokens at *
  have htoken : scale ≤ (⟨tokens, now⟩ : Bucket).available q (now + secs * 1000000000) ↔
      scale - tokens ≤ q.refill (secs * 1000000000) := by
    unfold available level
    dsimp only
    rw [Nat.add_sub_cancel_left, Nat.le_min]
    omega
  rw [htoken, le_refill_iff hq, Nat.mod_eq_of_lt hlt, Nat.mul_assoc]
  refine and_congr_right fun hfits => ?_
  have hexact : saturatingMul (scale - tokens) q.perNanos64 = (scale - tokens) * q.perNanos64 :=
    Nat.min_eq_left (by omega)
  rw [hsecs, hexact]
  exact le_floor_iff (by omega)

end Bucket

/-! ## Runs -/

namespace Limiter

variable {checked : Bool} {q : Quota} {l : Limiter} {key : String} {now : ℕ}

/-- Checks of other keys leave a bucket alone, or drop it. -/
theorem Sound.after_others (h : l.Sound q) (checked : Bool) (others : List (String × ℕ))
    (hothers : ∀ call ∈ others, call.1 ≠ key) :
    (l.after checked others).bucket key = l.bucket key ∨ (l.after checked others).bucket key = none := by
  induction others using List.reverseRecOn with
  | nil => exact Or.inl rfl
  | append_singleton others call ih =>
    have hkey : key ≠ call.1 := (hothers call (by simp)).symm
    have hbefore := ih fun c hc => hothers c (List.mem_append_left _ hc)
    obtain ⟨hsound, -⟩ := h.after checked others
    obtain ⟨d, l', hcheck, -, -, hchecked⟩ := hsound.checkAt checked call.1 call.2
    rw [after_concat, hcheck]
    cases hchecked with
    | spent htracked hown hrest =>
      rw [hrest key hkey]
      exact hbefore
    | refused huntracked hfull hshort => exact hbefore
    | inserted huntracked hroom hown hrest =>
      rcases hrest key hkey with hsame | ⟨hnone, -⟩
      · rw [hsame]
        exact hbefore
      · exact Or.inr hnone

/-- A refusal of a key that has a bucket. -/
theorem Sound.refused (h : l.Sound q) {b : Bucket} (hb : l.bucket key = some b) {wait : ℕ}
    (hrefused : (l.checkAt checked key now).1 = some (.deny wait)) :
    ¬scale ≤ b.available q now ∧ wait = b.wait q now ∧
      (l.checkAt checked key now).2.bucket key = some ⟨b.available q now, now⟩ := by
  obtain ⟨d, b', l', hspend, hcheck, -, hown, -⟩ := h.checkAt_tracked hb checked now
  rw [hcheck, Option.some.injEq] at hrefused
  rw [hrefused] at hspend
  obtain ⟨hdeny, hwait, rfl⟩ := Bucket.spend_deny hspend
  rw [hcheck]
  exact ⟨hdeny, hwait, hown⟩

/-- Who is let in: a key with a token in its bucket, or a new key for which
    there is room. -/
theorem Sound.allowed_iff (h : l.Sound q) : (l.checkAt checked key now).1 = some .allow ↔
    match l.bucket key with
    | some b => scale ≤ b.available q now
    | none => (l.short now).length < l.capacity := by
  obtain ⟨d, l', hcheck, -, -, hchecked⟩ := h.checkAt checked key now
  rw [hcheck, Option.some.injEq]
  cases hchecked with
  | spent htracked hown hrest =>
    rw [htracked]
    exact Bucket.spend_allow_iff
  | refused huntracked hfull hshort =>
    rw [huntracked]
    exact ⟨nofun, fun hroom => absurd hroom (Nat.not_lt.2 hfull)⟩
  | inserted huntracked hroom hown hrest =>
    rw [huntracked]
    exact ⟨fun _ => hroom, fun _ => rfl⟩

/-- A window of `u64` seconds that the cast makes zero: the check of a bucket
    divides by it. -/
theorem not_refused_of_zero {b : Bucket} (hb : l.buckets.lookup key = some b)
    (hzero : l.quota.perNanos64 = 0) (wait : ℕ) :
    (l.checkAt checked key now).1 ≠ some (.deny wait) := by
  have hlocked : l.checkLocked checked key now = none :=
    checkLocked_none hb (Bucket.refilled_divided hzero)
  unfold checkAt
  rw [hlocked]
  split_ifs <;> simp

/-- **`Retry-After`**: a key is refused at `now`, and asked again after the
    seconds of the header with only other keys asked in between.  If it still
    has its bucket, it is let in exactly if the wait was a whole one; if the
    bucket was dropped, exactly if there is room. -/
theorem retry_after_iff (checked : Bool) (burst : UInt32) (perSecs capacity : ℕ)
    (calls others : List (String × ℕ)) (key : String) (b : Bucket) (now wait : ℕ)
    (hburst : 1 ≤ burst.toNat) (hper : 1 ≤ perSecs)
    (htracked : ((new (.new burst perSecs) capacity).after checked calls).buckets.lookup key = some b)
    (hrefused : (((new (.new burst perSecs) capacity).after checked calls).checkAt checked key now).1 =
      some (.deny wait))
    (hothers : ∀ call ∈ others, call.1 ≠ key) :
    let later := (((new (.new burst perSecs) capacity).after checked calls).checkAt checked key now).2.after
      checked others
    let again := now + retryAfterSecs wait * 1000000000
    (later.checkAt checked key again).1 = some .allow ↔
      ((later.buckets.lookup key).isSome ∧
          (Quota.new burst perSecs).WholeWait (scale - b.available (.new burst perSecs) now)) ∨
        (later.buckets.lookup key = none ∧ (later.short again).length < later.capacity) := by
  intro later again
  by_cases hzero : (Quota.new burst perSecs).perNanos64 = 0
  · have hquota : ((new (.new burst perSecs) capacity).after checked calls).quota =
        .new burst perSecs := after_quota calls
    rw [← hquota] at hzero
    exact absurd hrefused (not_refused_of_zero htracked hzero wait)
  have hq : (Quota.new burst perSecs).Usable := Quota.new_usable hburst hper hzero
  obtain ⟨hsound, -⟩ := (new_sound hq capacity).after checked calls
  obtain ⟨hshort, rfl, hbucket⟩ := hsound.refused htracked hrefused
  obtain ⟨d, l', hcheck, hl', -, -⟩ := hsound.checkAt checked key now
  rw [hcheck] at hbucket
  have hlater : later = l'.after checked others := by simp only [later, hcheck]
  have hbuckets := hl'.after_others checked others hothers
  rw [hlater, (hl'.after checked others).1.allowed_iff]
  rcases hbuckets with hsame | hnone
  · rw [show (l'.after checked others).buckets.lookup key = _ from hsame.trans hbucket,
      hsame.trans hbucket]
    simpa using Bucket.enough_iff hq hshort
  · rw [show (l'.after checked others).buckets.lookup key = _ from hnone, hnone]
    simp

/-- A budget of ten a minute, used up. -/
def afterTen : Limiter := (new (.new 10 60) 16).after true (List.replicate 10 ("k", 0))

theorem retry_after_whole :
    (afterTen.checkAt true "k" 1500000000).1 = some (.deny 4500000000) ∧
    (afterTen.checkAt true "k" 3000000000).1 = some (.deny 3000000000) ∧
    (((afterTen.checkAt true "k" 3000000000).2.after true []).checkAt true "k"
      (3000000000 + retryAfterSecs 3000000000 * 1000000000)).1 = some .allow :=
  ⟨by decide +kernel, by decide +kernel,
    (retry_after_iff true 10 60 16 (List.replicate 10 ("k", 0)) [] "k" ⟨0, 0⟩ 3000000000 3000000000
      (by decide) (by decide) (by decide +kernel) (by decide +kernel) nofun).2 (by decide +kernel)⟩

/-- A wait of four seconds and a half is answered with four, and the key is
    refused again. -/
theorem retry_after_short :
    afterTen.buckets.lookup "k" = some ⟨0, 0⟩ ∧
    (afterTen.checkAt true "k" 1500000000).1 = some (.deny 4500000000) ∧
    (((afterTen.checkAt true "k" 1500000000).2.after true []).checkAt true "k"
      (1500000000 + retryAfterSecs 4500000000 * 1000000000)).1 ≠ some .allow :=
  ⟨by decide +kernel, by decide +kernel, by decide +kernel⟩

end Limiter

end SessionBroker
