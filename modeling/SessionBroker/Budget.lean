/-
  What a check of the limiter does, with the overflows out of the way.

  * no sum overflows where the burst is not zero and the window, as the `u64` it
    becomes, is at least 512 ns (`Usable`), so that a check never panics:
    `Bucket.check_eq`, `unfilled_eq`;
  * `Checked` is what a check can do, key by key;
  * `Sound` holds over any checks.
-/
import Mathlib.Tactic.Linarith
import SessionBroker.Lib.Run
import SessionBroker.Limiter

namespace SessionBroker

open Runs

theorem fit64_of_lt (checked : Bool) {n : ℕ} (h : n < 2 ^ 64) : fit64 checked n = some n := by
  unfold fit64
  rw [if_pos h]

theorem div64_of_ne {a b : ℕ} (h : b ≠ 0) : div64 a b = some (a / b) := by
  unfold div64
  rw [if_neg h]

/-! ## Buckets -/

/-- The tokens that come back in an idle time. -/
def Quota.refill (q : Quota) (elapsed : ℕ) : ℕ :=
  saturatingMul (elapsed % 2 ^ 64) q.capacityTokens / q.perNanos64

structure Quota.Usable (q : Quota) : Prop where
  burst : 1 ≤ q.burst.toNat
  per : 512 ≤ q.perNanos64

namespace Quota

variable {q : Quota}

theorem Usable.per_ne (h : q.Usable) : q.perNanos64 ≠ 0 := by
  have hper := h.per
  omega

theorem Usable.scale_le (h : q.Usable) : scale ≤ q.capacityTokens :=
  Nat.le_mul_of_pos_left _ h.burst

theorem capacityTokens_lt : q.capacityTokens < 2 ^ 52 := by
  have hburst := q.burst.toNat_lt
  unfold capacityTokens scale
  omega

theorem Usable.refill_lt (h : q.Usable) (elapsed : ℕ) : q.refill elapsed < 2 ^ 55 := by
  have hle : saturatingMul (elapsed % 2 ^ 64) q.capacityTokens ≤ 2 ^ 64 - 1 := Nat.min_le_right ..
  unfold refill
  rw [Nat.div_lt_iff_lt_mul (by have := h.per; omega)]
  have hper := h.per
  omega

/-- A window of whole seconds is no window at all, or a usable one. -/
theorem new_usable {burst : UInt32} {perSecs : ℕ} (hburst : 1 ≤ burst.toNat) (hper : 1 ≤ perSecs)
    (hne : (new burst perSecs).perNanos64 ≠ 0) : (new burst perSecs).Usable := by
  refine ⟨hburst, ?_⟩
  have hpos : 1 ≤ perSecs * 1000000000 := by omega
  have hmax : (new burst perSecs).perNanos64 = perSecs * 1000000000 % 2 ^ 64 := by
    simp only [perNanos64, new, Nat.max_eq_left hpos]
  rw [hmax] at hne ⊢
  have hdvd : 512 ∣ perSecs * 1000000000 % 2 ^ 64 :=
    (Nat.dvd_mod_iff (by norm_num)).2 (Dvd.dvd.mul_left (by norm_num) _)
  exact Nat.le_of_dvd (Nat.pos_of_ne_zero hne) hdvd

/-- The window of a quota, where the cast keeps it. -/
theorem perNanos64_eq (hpos : 1 ≤ q.perNanos) (hlt : q.perNanos < 2 ^ 64) :
    q.perNanos64 = q.perNanos := by
  unfold perNanos64
  rw [Nat.max_eq_left hpos, Nat.mod_eq_of_lt hlt]

/-- What comes back pays for itself. -/
theorem refill_mul_le (elapsed : ℕ) : q.refill elapsed * q.perNanos64 ≤ elapsed * q.capacityTokens :=
  calc q.refill elapsed * q.perNanos64
      ≤ saturatingMul (elapsed % 2 ^ 64) q.capacityTokens := Nat.div_mul_le_self ..
    _ ≤ elapsed % 2 ^ 64 * q.capacityTokens := Nat.min_le_left ..
    _ ≤ elapsed * q.capacityTokens := Nat.mul_le_mul_right _ (Nat.mod_le ..)

theorem refill_mono {elapsed elapsed' : ℕ} (hle : elapsed ≤ elapsed') (hlt : elapsed' < 2 ^ 64) :
    q.refill elapsed ≤ q.refill elapsed' := by
  unfold refill saturatingMul
  rw [Nat.mod_eq_of_lt hlt, Nat.mod_eq_of_lt (hle.trans_lt hlt)]
  have hmul : elapsed * q.capacityTokens ≤ elapsed' * q.capacityTokens := Nat.mul_le_mul_right _ hle
  exact Nat.div_le_div_right (by omega)

@[simp] theorem refill_zero : q.refill 0 = 0 := by
  simp [refill, saturatingMul]

end Quota

namespace Bucket

variable {checked : Bool} {q : Quota} {b : Bucket} {now : ℕ}

/-- The tokens at an instant, before the cap. -/
def level (q : Quota) (b : Bucket) (now : ℕ) : ℕ := b.tokens + q.refill (now - b.last)

/-- The tokens at an instant. -/
def available (q : Quota) (b : Bucket) (now : ℕ) : ℕ := min (b.level q now) q.capacityTokens

/-- A bucket that `retain` drops. -/
def Full (q : Quota) (b : Bucket) (now : ℕ) : Prop := q.capacityTokens ≤ b.level q now

instance : Decidable (b.Full q now) := inferInstanceAs (Decidable (_ ≤ _))

/-- The bucket of a key's first check. -/
def first (q : Quota) (now : ℕ) : Bucket := ⟨q.capacityTokens - scale, now⟩

-- unfolded, since the kernel would count the subtraction down
theorem first_tokens (q : Quota) (now : ℕ) :
    (first q now).tokens = q.capacityTokens - scale := by
  unfold first
  rfl

/-- The wait that a refusal answers with. -/
def wait (q : Quota) (b : Bucket) (now : ℕ) : ℕ :=
  max (saturatingMul (scale - b.available q now) q.perNanos64 / max q.capacityTokens 1) 1

/-- `check` without the overflows. -/
def spend (q : Quota) (b : Bucket) (now : ℕ) : Decision × Bucket :=
  if scale ≤ b.available q now then (.allow, ⟨b.available q now - scale, now⟩)
  else (.deny (b.wait q now), ⟨b.available q now, now⟩)

theorem available_le : b.available q now ≤ q.capacityTokens := Nat.min_le_right ..

theorem spend_tokens_le : (b.spend q now).2.tokens ≤ q.capacityTokens := by
  unfold spend
  have hle : b.available q now ≤ q.capacityTokens := available_le
  split_ifs
  · exact (Nat.sub_le ..).trans hle
  · exact hle

@[simp] theorem spend_last : (b.spend q now).2.last = now := by
  unfold spend
  split_ifs <;> rfl

theorem spend_allow_iff : (b.spend q now).1 = .allow ↔ scale ≤ b.available q now := by
  unfold spend
  split_ifs with h <;> simp [h]

theorem spend_deny {retryAfterNanos : ℕ} {b' : Bucket}
    (h : b.spend q now = (.deny retryAfterNanos, b')) :
    ¬scale ≤ b.available q now ∧ retryAfterNanos = b.wait q now ∧ b' = ⟨b.available q now, now⟩ := by
  unfold spend at h
  split_ifs at h with hallow
  · exact nomatch (Prod.mk.inj h).1
  · obtain ⟨hwait, hb'⟩ := Prod.mk.inj h
    exact ⟨hallow, (Decision.deny.inj hwait).symm, hb'.symm⟩

theorem refilled_of_fits (hper : q.perNanos64 ≠ 0) (hfits : b.level q now < 2 ^ 64) :
    b.refilled checked q now = some (b.level q now) := by
  have hrefilled : b.refilled checked q now =
      (div64 (saturatingMul ((now - b.last) % 2 ^ 64) q.capacityTokens) q.perNanos64).bind
        fun refill => fit64 checked (b.tokens + refill) := rfl
  rw [hrefilled, div64_of_ne hper, Option.bind_some]
  exact fit64_of_lt checked hfits

/-- A division by zero. -/
theorem refilled_divided (hper : q.perNanos64 = 0) : b.refilled checked q now = none := by
  unfold refilled
  rw [hper]
  rfl

theorem check_of_fits (hper : q.perNanos64 ≠ 0) (hfits : b.level q now < 2 ^ 64) :
    b.check checked q now = some (b.spend q now) := by
  have hcheck : b.check checked q now = (b.refilled checked q now).bind fun level =>
      let tokens := min level q.capacityTokens
      if scale ≤ tokens then some (.allow, ⟨tokens - scale, now⟩)
      else
        let waitNanos := saturatingMul (scale - tokens) q.perNanos64 / max q.capacityTokens 1
        some (.deny (max waitNanos 1), ⟨tokens, now⟩) := rfl
  rw [hcheck, refilled_of_fits hper hfits, Option.bind_some]
  dsimp only
  unfold spend wait available
  split_ifs
  · rfl
  · rfl

theorem level_lt (hq : q.Usable) (hb : b.tokens ≤ q.capacityTokens) (now : ℕ) :
    b.level q now < 2 ^ 64 := by
  have hrefill := hq.refill_lt (now - b.last)
  have hcap := q.capacityTokens_lt
  unfold level
  omega

theorem check_eq (hq : q.Usable) (hb : b.tokens ≤ q.capacityTokens) :
    b.check checked q now = some (b.spend q now) :=
  check_of_fits hq.per_ne (level_lt hq hb now)

/-- A bucket without a check only fills. -/
theorem level_mono {now' : ℕ} (hle : now ≤ now') (hlt : now' < b.last + 2 ^ 64) :
    b.level q now ≤ b.level q now' :=
  Nat.add_le_add_left (Quota.refill_mono (by omega) (by omega)) _

end Bucket

/-! ## Checks -/

namespace Limiter

variable {checked : Bool} {l l' : Limiter} {key : String} {now : ℕ}

def bucket (l : Limiter) (key : String) : Option Bucket := l.buckets.lookup key

/-- The buckets that are short of full. -/
def short (l : Limiter) (now : ℕ) : List (String × Bucket) :=
  l.buckets.filter fun kb => ¬kb.2.Full l.quota now

theorem unfilled_of_fits {q : Quota} {buckets : List (String × Bucket)} (hper : q.perNanos64 ≠ 0)
    (hfits : ∀ kb ∈ buckets, kb.2.level q now < 2 ^ 64) :
    unfilled checked q now buckets = some (buckets.filter fun kb => ¬kb.2.Full q now) := by
  induction buckets with
  | nil => rfl
  | cons kb rest ih =>
    obtain ⟨key, b⟩ := kb
    unfold unfilled
    rw [Bucket.refilled_of_fits hper (hfits _ (List.mem_cons_self ..)),
      ih fun kb hkb => hfits kb (List.mem_cons_of_mem _ hkb)]
    simp only [Option.bind_eq_bind, Option.bind_some, Option.pure_def, Option.some.injEq]
    by_cases hfull : b.Full q now
    · rw [if_neg (Nat.not_lt.2 hfull), List.filter_cons_of_neg (by simpa using hfull)]
    · rw [if_pos (Nat.not_le.1 hfull), List.filter_cons_of_pos (by simpa using hfull)]

theorem unfilled_eq {q : Quota} {buckets : List (String × Bucket)} (hq : q.Usable)
    (hb : ∀ kb ∈ buckets, kb.2.tokens ≤ q.capacityTokens) :
    unfilled checked q now buckets = some (buckets.filter fun kb => ¬kb.2.Full q now) :=
  unfilled_of_fits hq.per_ne fun kb hkb => Bucket.level_lt hq (hb kb hkb) now

theorem insertNew_eq {q : Quota} {buckets : List (String × Bucket)}
    (hscale : scale ≤ q.capacityTokens) :
    insertNew checked q buckets key now = some (.allow, buckets ++ [(key, .first q now)]) := by
  unfold insertNew
  rw [show sub64 checked q.capacityTokens scale = some (q.capacityTokens - scale) from
    if_pos hscale]
  rfl

/-- What holds over any checks. -/
structure Sound (q : Quota) (l : Limiter) : Prop where
  kept : l.Kept
  usable : q.Usable
  quota : l.quota = q
  healthy : l.poisoned = false
  tokens : ∀ kb ∈ l.buckets, kb.2.tokens ≤ q.capacityTokens

theorem new_sound {q : Quota} (hq : q.Usable) (capacity : ℕ) : (new q capacity).Sound q :=
  ⟨new_kept .., hq, rfl, rfl, by simp [new]⟩

/-- **What a check can do**, to its key and to the others: spend a token of the
    bucket, refuse a new key for want of room, or put in its bucket, for which
    full ones may have to go. -/
inductive Checked (q : Quota) (l : Limiter) (key : String) (now : ℕ) : Decision → Limiter → Prop
  | spent {b : Bucket} {l' : Limiter} (tracked : l.bucket key = some b)
      (own : l'.bucket key = some (b.spend q now).2)
      (others : ∀ k ≠ key, l'.bucket k = l.bucket k) : Checked q l key now (b.spend q now).1 l'
  | refused (untracked : l.bucket key = none) (full : l.capacity ≤ (l.short now).length)
      (short : ∀ kb ∈ l.buckets, ¬kb.2.Full q now) : Checked q l key now (.deny q.perNanos) l
  | inserted {l' : Limiter} (untracked : l.bucket key = none)
      (room : (l.short now).length < l.capacity) (own : l'.bucket key = some (.first q now))
      (others : ∀ k ≠ key, l'.bucket k = l.bucket k ∨
        l'.bucket k = none ∧ ∃ b, l.bucket k = some b ∧ b.Full q now) :
      Checked q l key now .allow l'

variable {q : Quota}

theorem Sound.bucket_tokens (h : l.Sound q) {b : Bucket} (hb : l.bucket key = some b) :
    b.tokens ≤ q.capacityTokens := h.tokens _ (Lookup.mem_of_lookup hb)

theorem Sound.check_eq (h : l.Sound q) (checked : Bool) (now : ℕ) {b : Bucket}
    (hb : l.bucket key = some b) : b.check checked q now = some (b.spend q now) :=
  Bucket.check_eq h.usable (h.bucket_tokens hb)

/-- A bucket that is found behind the filter. -/
theorem Sound.lookup_short (h : l.Sound q) (now : ℕ) (k : String) :
    (l.short now).lookup k = l.bucket k ∨
      (l.short now).lookup k = none ∧ ∃ b, l.bucket k = some b ∧ b.Full q now := by
  have hfilter := Lookup.lookup_filter h.kept.nodup (fun kb => ¬kb.2.Full l.quota now) (k := k)
  have hshort : (l.short now).lookup k =
      (l.bucket k).filter fun b => ¬b.Full l.quota now := hfilter
  rw [hshort, h.quota]
  cases hb : l.bucket k with
  | none => exact Or.inl rfl
  | some b =>
    by_cases hfull : b.Full q now
    · exact Or.inr ⟨by simp [Option.filter, hfull], b, rfl, hfull⟩
    · exact Or.inl (by simp [Option.filter, hfull])

/-- A first bucket joins the ones that stay. -/
theorem Sound.inserted (h : l.Sound q) {kept : List (String × Bucket)}
    (hsub : kept.Sublist l.buckets) (hroom : kept.length < l.capacity)
    (huntracked : l.bucket key = none) :
    ({ l with buckets := kept ++ [(key, .first q now)] } : Limiter).Sound q where
  kept := by
    have hins : Limiter.insertNew false q kept key now = _ := insertNew_eq h.usable.scale_le
    rw [← h.quota] at hins
    rw [← h.quota]
    exact h.kept.insertNew hsub hroom (Lookup.lookup_eq_none.1 huntracked) hins
  usable := h.usable
  quota := h.quota
  healthy := h.healthy
  tokens := by
    intro kb hkb
    rcases List.mem_append.1 hkb with hkb | hkb
    · exact h.tokens kb (hsub.subset hkb)
    · rw [List.mem_singleton.1 hkb]
      exact Nat.sub_le ..

theorem lookup_inserted {kept : List (String × Bucket)} {b : Bucket} (k : String)
    (hkey : kept.lookup key = none) :
    (kept ++ [(key, b)]).lookup k = if k = key then some b else kept.lookup k := by
  rw [List.lookup_append, List.lookup_cons]
  by_cases hk : k = key
  · subst hk
    simp [hkey]
  · simp [hk, beq_false_of_ne hk]

theorem checkLocked_tracked {b : Bucket} {r : Decision × Bucket}
    (hfound : l.buckets.lookup key = some b) (hcheck : b.check checked l.quota now = some r) :
    l.checkLocked checked key now =
      some (r.1, l.buckets.map fun kb => if kb.1 = key then (kb.1, r.2) else kb) := by
  unfold checkLocked
  rw [hfound]
  dsimp only
  rw [hcheck]
  rfl

/-- A panic in the bucket of the key. -/
theorem checkLocked_none {b : Bucket} (hfound : l.buckets.lookup key = some b)
    (hnone : b.refilled checked l.quota now = none) : l.checkLocked checked key now = none := by
  have hcheck : b.check checked l.quota now = none := by
    unfold Bucket.check
    rw [hnone]
    rfl
  unfold checkLocked
  rw [hfound]
  dsimp only
  rw [hcheck]
  rfl

/-- A new key: full buckets go only where there is no room. -/
theorem checkLocked_untracked (hper : l.quota.perNanos64 ≠ 0) (hscale : scale ≤ l.quota.capacityTokens)
    (hfits : ∀ kb ∈ l.buckets, kb.2.level l.quota now < 2 ^ 64)
    (hfound : l.buckets.lookup key = none) :
    l.checkLocked checked key now =
      if l.capacity ≤ l.buckets.length then
        if l.capacity ≤ (l.short now).length then some (.deny l.quota.perNanos, l.short now)
        else some (.allow, l.short now ++ [(key, .first l.quota now)])
      else some (.allow, l.buckets ++ [(key, .first l.quota now)]) := by
  have hshort : unfilled checked l.quota now l.buckets = some (l.short now) :=
    unfilled_of_fits hper hfits
  have hinsert : ∀ buckets, insertNew checked l.quota buckets key now =
      some (.allow, buckets ++ [(key, .first l.quota now)]) := fun _ => insertNew_eq hscale
  unfold checkLocked
  rw [hfound]
  dsimp only
  rw [hshort, hinsert, Option.bind_eq_bind, Option.bind_some, hinsert, Option.pure_def]

/-- The bucket of a key is replaced. -/
theorem Sound.replaced (h : l.Sound q) {b : Bucket} (hb : b.tokens ≤ q.capacityTokens) :
    ({ l with buckets := l.buckets.map fun kb => if kb.1 = key then (kb.1, b) else kb } :
      Limiter).Sound q where
  kept := by
    have hkeys := Lookup.map_fst_replace l.buckets key b
    refine ⟨hkeys ▸ h.kept.nodup, ?_⟩
    show List.length (List.map _ _) ≤ _
    rw [List.length_map]
    exact h.kept.length_le
  usable := h.usable
  quota := h.quota
  healthy := h.healthy
  tokens := Lookup.forall_replace (P := fun b : Bucket => b.tokens ≤ q.capacityTokens) h.tokens hb

/-- A check of a key that has a bucket. -/
theorem Sound.checkLocked_tracked (h : l.Sound q) {b : Bucket} (hfound : l.bucket key = some b) :
    ∃ d buckets, l.checkLocked checked key now = some (d, buckets) ∧
      ({ l with buckets } : Limiter).Sound q ∧ Checked q l key now d { l with buckets } := by
  obtain rfl := h.quota
  refine ⟨(b.spend l.quota now).1, _,
    Limiter.checkLocked_tracked hfound (h.check_eq checked now hfound),
    h.replaced Bucket.spend_tokens_le, .spent hfound ?_ ?_⟩
  · show List.lookup key _ = _
    rw [Lookup.lookup_replace, if_pos rfl, show l.buckets.lookup key = some b from hfound,
      Option.map_some]
  · intro k hk
    show List.lookup k _ = _
    rw [Lookup.lookup_replace, if_neg hk]
    rfl

/-- Where there is no room to make, all buckets are short of full. -/
theorem Sound.short_eq (h : l.Sound q) (hfull : l.capacity ≤ (l.short now).length) :
    l.short now = l.buckets :=
  List.filter_sublist.eq_of_length_le (h.kept.length_le.trans hfull)

theorem Sound.all_short (h : l.Sound q) (hfull : l.capacity ≤ (l.short now).length) :
    ∀ kb ∈ l.buckets, ¬kb.2.Full q now := by
  intro kb hkb
  rw [← h.short_eq hfull] at hkb
  have hshort := (List.mem_filter.1 hkb).2
  rw [h.quota] at hshort
  simpa using hshort

/-- A check of a new key. -/
theorem Sound.checkLocked_untracked (h : l.Sound q) (hfound : l.bucket key = none) :
    ∃ d buckets, l.checkLocked checked key now = some (d, buckets) ∧
      ({ l with buckets } : Limiter).Sound q ∧ Checked q l key now d { l with buckets } := by
  have hsub : (l.short now).Sublist l.buckets := List.filter_sublist
  obtain rfl := h.quota
  rw [Limiter.checkLocked_untracked h.usable.per_ne h.usable.scale_le
    (fun kb hkb => Bucket.level_lt h.usable (h.tokens kb hkb) now) hfound]
  split_ifs with hcapacity hfull
  · rw [h.short_eq hfull]
    exact ⟨_, _, rfl, h, .refused hfound hfull (h.all_short hfull)⟩
  · have hnone : (l.short now).lookup key = none := by
      rcases h.lookup_short now key with hsame | ⟨hnone, -⟩
      · exact hsame.trans hfound
      · exact hnone
    refine ⟨_, _, rfl, h.inserted hsub (by omega) hfound, .inserted hfound (by omega) ?_ ?_⟩
    · show List.lookup key _ = _
      rw [lookup_inserted key hnone, if_pos rfl]
    · intro k hk
      show List.lookup k _ = _ ∨ List.lookup k _ = _ ∧ _
      rw [lookup_inserted k hnone, if_neg hk]
      exact h.lookup_short now k
  · have hlen := hsub.length_le
    refine ⟨_, _, rfl, h.inserted (List.Sublist.refl _) (by omega) hfound,
      .inserted hfound (by omega) ?_ ?_⟩
    · show List.lookup key _ = _
      rw [lookup_inserted key hfound, if_pos rfl]
    · intro k hk
      left
      show List.lookup k _ = _
      rw [lookup_inserted k hfound, if_neg hk]
      rfl

/-- **Spec of a check.** -/
theorem Sound.checkAt (h : l.Sound q) (checked : Bool) (key : String) (now : ℕ) :
    ∃ d l', l.checkAt checked key now = (some d, l') ∧ l'.Sound q ∧ l'.capacity = l.capacity ∧
      Checked q l key now d l' := by
  have hlocked : ∃ d buckets, l.checkLocked checked key now = some (d, buckets) ∧
      ({ l with buckets } : Limiter).Sound q ∧ Checked q l key now d { l with buckets } := by
    cases hfound : l.bucket key with
    | some b => exact h.checkLocked_tracked hfound
    | none => exact h.checkLocked_untracked hfound
  obtain ⟨d, buckets, hcheck, hsound, hchecked⟩ := hlocked
  refine ⟨d, { l with buckets }, ?_, hsound, rfl, hchecked⟩
  unfold Limiter.checkAt
  rw [h.healthy, hcheck]
  rfl

/-- A check of a key that has a bucket, seen from the bucket. -/
theorem Sound.checkAt_tracked (h : l.Sound q) {b : Bucket} (hb : l.bucket key = some b)
    (checked : Bool) (now : ℕ) : ∃ d b' l', b.spend q now = (d, b') ∧
      l.checkAt checked key now = (some d, l') ∧ l'.Sound q ∧ l'.bucket key = some b' ∧
      b'.last = now := by
  obtain ⟨d, l', hcheck, hsound, -, hchecked⟩ := h.checkAt checked key now
  cases hchecked with
  | @spent b₀ _ htracked hown hothers =>
    obtain rfl : b₀ = b := Option.some.inj (htracked.symm.trans hb)
    exact ⟨_, _, l', Prod.mk.eta.symm, hcheck, hsound, hown, Bucket.spend_last⟩
  | refused huntracked =>
    rw [hb] at huntracked
    cases huntracked
  | inserted huntracked =>
    rw [hb] at huntracked
    cases huntracked

/-! ## Runs -/

variable (checked) in
/-- The limiter after the checks `calls`, each a key and an instant. -/
def after (l : Limiter) (calls : List (String × ℕ)) : Limiter :=
  run (fun l call => (l.checkAt checked call.1 call.2).2) l calls

variable (checked) in
/-- The checks with their answers. -/
def trace (l : Limiter) : List (String × ℕ) → List ((String × ℕ) × Option Decision)
  | [] => []
  | call :: calls =>
    (call, (l.checkAt checked call.1 call.2).1) :: trace (l.checkAt checked call.1 call.2).2 calls

theorem after_concat (calls : List (String × ℕ)) (call : String × ℕ) :
    l.after checked (calls ++ [call]) = ((l.after checked calls).checkAt checked call.1 call.2).2 :=
  run_concat ..

theorem after_quota (calls : List (String × ℕ)) : (l.after checked calls).quota = l.quota := by
  induction calls using List.reverseRecOn with
  | nil => rfl
  | append_singleton calls call ih =>
    rw [after_concat, ← ih]
    unfold checkAt
    split_ifs
    · rfl
    · split <;> rfl

theorem map_fst_trace (calls : List (String × ℕ)) : (l.trace checked calls).map (·.1) = calls := by
  induction calls generalizing l with
  | nil => rfl
  | cons call calls ih => rw [trace, List.map_cons, ih]

theorem trace_concat (calls : List (String × ℕ)) (call : String × ℕ) :
    l.trace checked (calls ++ [call]) = l.trace checked calls ++
      [(call, ((l.after checked calls).checkAt checked call.1 call.2).1)] := by
  induction calls generalizing l with
  | nil => rfl
  | cons first calls ih =>
    rw [List.cons_append, trace, trace, ih, List.cons_append]
    rfl

theorem Sound.after (h : l.Sound q) (checked : Bool) (calls : List (String × ℕ)) :
    (l.after checked calls).Sound q ∧ (l.after checked calls).capacity = l.capacity := by
  induction calls using List.reverseRecOn with
  | nil => exact ⟨h, rfl⟩
  | append_singleton calls call ih =>
    obtain ⟨d, l', hcheck, hsound, hcapacity, -⟩ := ih.1.checkAt checked call.1 call.2
    rw [after_concat, hcheck]
    exact ⟨hsound, hcapacity.trans ih.2⟩

end Limiter

end SessionBroker
