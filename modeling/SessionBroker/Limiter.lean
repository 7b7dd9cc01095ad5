/-
  The keyed token bucket (`ratelimit.rs`).

  * Instants and durations are nanoseconds.  `u64` arithmetic is explicit: a
    result that does not fit is a panic where the build checks for overflow
    (`checked`), and wraps where it does not;
  * a panic under the lock poisons it, and a poisoned limiter allows;
  * `Limiter.Kept`: each key has one bucket, and no more keys are held than the
    capacity.  A check keeps it.
-/
import SessionBroker.Clock
import SessionBroker.Lib.Lookup

namespace SessionBroker

/-! ## `u64` arithmetic -/

/-- `a + b` or `a * b` on `u64`, from its exact value. -/
def fit64 (checked : Bool) (n : ℕ) : Option ℕ :=
  if n < 2 ^ 64 then some n else if checked then none else some (n % 2 ^ 64)

/-- `a - b` on `u64`. -/
def sub64 (checked : Bool) (a b : ℕ) : Option ℕ :=
  if b ≤ a then some (a - b) else if checked then none else some (a + 2 ^ 64 - b)

/-- `u64::saturating_mul`. -/
def saturatingMul (a b : ℕ) : ℕ := min (a * b) (2 ^ 64 - 1)

/-- `a / b`, a panic where `b = 0`. -/
def div64 (a b : ℕ) : Option ℕ := if b = 0 then none else some (a / b)

/-! ## The limiter -/

structure Quota where
  burst : UInt32
  perNanos : ℕ
deriving DecidableEq, Repr

/-- `Quota::new`. -/
def Quota.new (burst : UInt32) (perSecs : ℕ) : Quota := ⟨burst, perSecs * 1000000000⟩

inductive Decision where
  | allow
  | deny (retryAfterNanos : ℕ)
deriving DecidableEq, Repr

structure Bucket where
  tokens : ℕ
  last : ℕ
deriving DecidableEq, Repr

/-- `SCALE`. -/
def scale : ℕ := 1000000

/-- `capacity_tokens`. -/
def Quota.capacityTokens (q : Quota) : ℕ := q.burst.toNat * scale

/-- `per_nanos`, with the cast to `u64`. -/
def Quota.perNanos64 (q : Quota) : ℕ := max q.perNanos 1 % 2 ^ 64

structure Limiter where
  quota : Quota
  buckets : List (String × Bucket)
  capacity : ℕ
  poisoned : Bool
deriving DecidableEq, Repr

/-- `Limiter::new`. -/
def Limiter.new (quota : Quota) (capacity : ℕ) : Limiter := ⟨quota, [], max capacity 1, false⟩

/-- `bucket.tokens + refill`, before the cap. -/
def Bucket.refilled (checked : Bool) (q : Quota) (b : Bucket) (now : ℕ) : Option ℕ := do
  let elapsed := (now - b.last) % 2 ^ 64
  let refill ← div64 (saturatingMul elapsed q.capacityTokens) q.perNanos64
  fit64 checked (b.tokens + refill)

/-- `check_at` on the bucket of its key. -/
def Bucket.check (checked : Bool) (q : Quota) (b : Bucket) (now : ℕ) :
    Option (Decision × Bucket) := do
  let tokens := min (← b.refilled checked q now) q.capacityTokens
  if scale ≤ tokens then
    return (.allow, ⟨tokens - scale, now⟩)
  else
    let waitNanos := saturatingMul (scale - tokens) q.perNanos64 / max q.capacityTokens 1
    return (.deny (max waitNanos 1), ⟨tokens, now⟩)

namespace Limiter

variable (checked : Bool)

/-- `buckets.retain`: only the buckets that are short of full stay. -/
def unfilled (q : Quota) (now : ℕ) : List (String × Bucket) → Option (List (String × Bucket))
  | [] => some []
  | (key, b) :: rest => do
    let tokens ← b.refilled checked q now
    let kept ← unfilled q now rest
    return if tokens < q.capacityTokens then (key, b) :: kept else kept

/-- `buckets.insert` of a key's first bucket. -/
def insertNew (q : Quota) (buckets : List (String × Bucket)) (key : String) (now : ℕ) :
    Option (Decision × List (String × Bucket)) := do
  let tokens ← sub64 checked q.capacityTokens scale
  return (.allow, buckets ++ [(key, ⟨tokens, now⟩)])

/-- `check_at` under the lock. -/
def checkLocked (l : Limiter) (key : String) (now : ℕ) :
    Option (Decision × List (String × Bucket)) :=
  match l.buckets.lookup key with
  | some bucket => do
    let (decision, bucket) ← bucket.check checked l.quota now
    return (decision, l.buckets.map fun kb => if kb.1 = key then (kb.1, bucket) else kb)
  | none =>
    if l.capacity ≤ l.buckets.length then do
      let kept ← unfilled checked l.quota now l.buckets
      if l.capacity ≤ kept.length then
        return (.deny l.quota.perNanos, kept)
      else insertNew checked l.quota kept key now
    else insertNew checked l.quota l.buckets key now

/-- `Limiter::check_at`; no decision where it panics. -/
def checkAt (l : Limiter) (key : String) (now : ℕ) : Option Decision × Limiter :=
  if l.poisoned then (some .allow, l)
  else match l.checkLocked checked key now with
    | some (decision, buckets) => (some decision, { l with buckets })
    | none => (none, { l with poisoned := true })

/-! ## What a check keeps -/

/-- One bucket a key, and no more than the capacity. -/
structure Kept (l : Limiter) : Prop where
  nodup : (l.buckets.map (·.1)).Nodup
  length_le : l.buckets.length ≤ l.capacity

theorem new_kept (quota : Quota) (capacity : ℕ) : (new quota capacity).Kept :=
  ⟨List.nodup_nil, Nat.zero_le _⟩

variable {checked} {l : Limiter} {key : String} {now : ℕ}

theorem unfilled_sublist {q : Quota} {buckets kept : List (String × Bucket)}
    (h : unfilled checked q now buckets = some kept) : kept.Sublist buckets := by
  induction buckets generalizing kept with
  | nil =>
    cases h
    exact List.Sublist.refl _
  | cons kb rest ih =>
    obtain ⟨key, b⟩ := kb
    simp only [unfilled, Option.bind_eq_bind, Option.bind_eq_some_iff, Option.pure_def,
      Option.some.injEq] at h
    obtain ⟨tokens, -, kept', hkept, rfl⟩ := h
    split_ifs
    · exact (ih hkept).cons_cons _
    · exact (ih hkept).cons _

/-- A new key joins buckets that are among the old, where there is room. -/
theorem Kept.insertNew (h : l.Kept) {kept buckets : List (String × Bucket)} {decision : Decision}
    (hsub : kept.Sublist l.buckets) (hroom : kept.length < l.capacity)
    (hkey : key ∉ l.buckets.map (·.1))
    (hins : Limiter.insertNew checked l.quota kept key now = some (decision, buckets)) :
    ({ l with buckets } : Limiter).Kept := by
  simp only [Limiter.insertNew, Option.bind_eq_bind, Option.bind_eq_some_iff, Option.pure_def,
    Option.some.injEq, Prod.mk.injEq] at hins
  obtain ⟨tokens, -, -, rfl⟩ := hins
  constructor
  · have hkey' : key ∉ kept.map (·.1) := fun hk => hkey ((hsub.map _).subset hk)
    show ((kept ++ [(key, (⟨tokens, now⟩ : Bucket))]).map (·.1)).Nodup
    rw [List.map_append]
    exact ((hsub.map _).nodup h.nodup).append (List.nodup_singleton _) (by simpa using hkey')
  · show (kept ++ [(key, (⟨tokens, now⟩ : Bucket))]).length ≤ l.capacity
    rw [List.length_append, List.length_singleton]
    omega

theorem Kept.checkLocked (h : l.Kept) {decision : Decision} {buckets : List (String × Bucket)}
    (hc : l.checkLocked checked key now = some (decision, buckets)) :
    ({ l with buckets } : Limiter).Kept := by
  unfold Limiter.checkLocked at hc
  cases hl : l.buckets.lookup key with
  | some bucket =>
    rw [hl] at hc
    simp only [Option.bind_eq_bind, Option.bind_eq_some_iff, Option.pure_def, Option.some.injEq,
      Prod.mk.injEq] at hc
    obtain ⟨⟨d, b⟩, -, -, rfl⟩ := hc
    constructor
    · have hkeys := Lookup.map_fst_replace l.buckets key b
      exact hkeys ▸ h.nodup
    · simpa using h.length_le
  | none =>
    rw [hl] at hc
    have hkey := Lookup.lookup_eq_none.1 hl
    simp only at hc
    split_ifs at hc with hfull
    · simp only [Option.bind_eq_bind, Option.bind_eq_some_iff] at hc
      obtain ⟨kept, hkept, hc⟩ := hc
      have hsub := unfilled_sublist hkept
      split_ifs at hc with hfull'
      · cases hc
        exact ⟨(hsub.map _).nodup h.nodup, Nat.le_trans hsub.length_le h.length_le⟩
      · exact h.insertNew hsub (by omega) hkey hc
    · exact h.insertNew (List.Sublist.refl _) (by omega) hkey hc

theorem Kept.checkAt (h : l.Kept) : (l.checkAt checked key now).2.Kept := by
  unfold Limiter.checkAt
  split_ifs with hp
  · exact h
  · split
    · exact h.checkLocked ‹_›
    · exact ⟨h.nodup, h.length_le⟩

/-- Over any checks, the limiter holds no more keys than its capacity. -/
theorem Kept.checks (h : l.Kept) (calls : List (String × ℕ)) :
    (calls.foldl (fun l call => (l.checkAt checked call.1 call.2).2) l).Kept := by
  induction calls generalizing l with
  | nil => exact h
  | cons call calls ih => exact ih h.checkAt

/-- A guess against one key: allowed once, then refused for the whole window. -/
example : let l := new (.new 1 60) 16
    (l.checkAt false "k" 0).1 = some .allow ∧
      ((l.checkAt false "k" 0).2.checkAt false "k" 0).1 = some (.deny 60000000000) := by
  decide +kernel

end Limiter

end SessionBroker
