/-
  A limiter that forgets full buckets answers like one that forgets none.

  * `ownCheck` is the check of a bucket that one key has for itself;
  * `Shadows`: the limiter has the key's own bucket, or has dropped it when it
    was full, and then it is full to this day;
  * `eviction_invisible`: over any checks at nondecreasing instants.
-/
import SessionBroker.Budget

namespace SessionBroker

open Runs

/-! ## A bucket of its own -/

/-- `check_at` of the one key of a table: the bucket is there from the first
    check on. -/
def ownCheck (checked : Bool) (q : Quota) (own : Option Bucket) (now : ℕ) :
    Option (Decision × Bucket) :=
  match own with
  | some bucket => bucket.check checked q now
  | none => do
    let tokens ← sub64 checked q.capacityTokens scale
    return (.allow, ⟨tokens, now⟩)

/-- The bucket after checks at `instants`. -/
def ownBucket (checked : Bool) (q : Quota) (instants : List ℕ) : Option Bucket :=
  run (fun own now => (ownCheck checked q own now).map (·.2)) none instants

/-- `ownCheck` without the overflows. -/
def ownSpend (q : Quota) (own : Option Bucket) (now : ℕ) : Decision × Bucket :=
  match own with
  | some bucket => bucket.spend q now
  | none => (.allow, .first q now)

theorem ownCheck_eq {checked : Bool} {q : Quota} {own : Option Bucket} {now : ℕ} (hq : q.Usable)
    (hown : ∀ b, own = some b → b.tokens ≤ q.capacityTokens) :
    ownCheck checked q own now = some (ownSpend q own now) := by
  cases own with
  | some b => exact Bucket.check_eq hq (hown b rfl)
  | none =>
    have hsub : sub64 checked q.capacityTokens scale = some (q.capacityTokens - scale) :=
      if_pos hq.scale_le
    unfold ownCheck
    dsimp only
    rw [hsub]
    rfl

/-- A full bucket is spent like one that is not there. -/
theorem Bucket.Full.spend {q : Quota} {b : Bucket} {now : ℕ} (h : b.Full q now) (hq : q.Usable) :
    b.spend q now = (.allow, .first q now) := by
  have havailable : b.available q now = q.capacityTokens := Nat.min_eq_right h
  unfold Bucket.spend Bucket.first
  rw [havailable, if_pos hq.scale_le]

theorem Bucket.Full.mono {q : Quota} {b : Bucket} {now now' : ℕ} (h : b.Full q now) (hle : now ≤ now')
    (hlt : now' < b.last + 2 ^ 64) : b.Full q now' :=
  h.trans (b.level_mono hle hlt)

namespace Limiter

/-- `Limiter::tracked`. -/
def tracked (l : Limiter) : ℕ := if l.poisoned then 0 else l.buckets.length

/-- The way of `check_at` to its second refusal: a new key, no room, and none
    to be made. -/
def refusesForRoom (checked : Bool) (l : Limiter) (key : String) (now : ℕ) : Bool :=
  match l.buckets.lookup key with
  | some _ => false
  | none => l.capacity ≤ l.buckets.length &&
    match unfilled checked l.quota now l.buckets with
    | some kept => l.capacity ≤ kept.length
    | none => false

/-- The instants of the checks of `key` that were not refused for want of room. -/
def admitted (checked : Bool) (key : String) (l : Limiter) : List (String × ℕ) → List ℕ
  | [] => []
  | call :: calls =>
    let rest := admitted checked key (l.checkAt checked call.1 call.2).2 calls
    if call.1 = key ∧ l.refusesForRoom checked key call.2 = false then call.2 :: rest else rest

variable {checked : Bool} {q : Quota} {l l' : Limiter} {key k : String} {now horizon : ℕ}
  {own : Option Bucket}

theorem admitted_concat (calls : List (String × ℕ)) (call : String × ℕ) :
    admitted checked key l (calls ++ [call]) = admitted checked key l calls ++
      if call.1 = key ∧ (l.after checked calls).refusesForRoom checked key call.2 = false then [call.2]
      else [] := by
  induction calls generalizing l with
  | nil => rfl
  | cons first calls ih =>
    have hafter : l.after checked (first :: calls) =
        (l.checkAt checked first.1 first.2).2.after checked calls := rfl
    rw [List.cons_append, admitted, admitted, ih, hafter]
    split_ifs <;> rfl

theorem Sound.refusesForRoom_iff (h : l.Sound q) {checked : Bool} : l.refusesForRoom checked key now = true ↔
    l.bucket key = none ∧ l.capacity ≤ (l.short now).length := by
  obtain rfl := h.quota
  have hshort : unfilled checked l.quota now l.buckets = some (l.short now) :=
    unfilled_eq h.usable h.tokens
  have hlen : (l.short now).length ≤ l.buckets.length := List.length_filter_le ..
  unfold refusesForRoom bucket
  cases l.buckets.lookup key with
  | some b => simp
  | none =>
    dsimp only
    rw [hshort]
    simp only [Bool.and_eq_true, decide_eq_true_eq, true_and]
    omega

/-! ## The shadow of the table -/

/-- `own` is the key's own bucket, up to the instant `horizon`. -/
structure Shadows (q : Quota) (l : Limiter) (key : String) (own : Option Bucket)
    (now horizon : ℕ) : Prop where
  tokens : ∀ b, own = some b → b.tokens ≤ q.capacityTokens
  recent : ∀ b, own = some b → horizon < b.last + 2 ^ 63
  same : l.bucket key = own ∨ l.bucket key = none ∧ ∃ b, own = some b ∧ b.Full q now

theorem Shadows.mono (h : Shadows q l key own now horizon) {now' : ℕ} (hle : now ≤ now')
    (hhorizon : now' ≤ horizon) : Shadows q l key own now' horizon where
  tokens := h.tokens
  recent := h.recent
  same := by
    refine h.same.imp_right ?_
    rintro ⟨hnone, b, hb, hfull⟩
    have hrecent := h.recent b hb
    exact ⟨hnone, b, hb, hfull.mono hle (by omega)⟩

/-- A key that is tracked has its own bucket. -/
theorem Shadows.tracked (h : Shadows q l key own now horizon) {b : Bucket}
    (hb : l.bucket key = some b) : own = some b := by
  rcases h.same with hsame | ⟨hnone, -⟩
  · exact hsame ▸ hb
  · rw [hb] at hnone
    cases hnone

/-- A key that is not tracked is treated as its own bucket would be. -/
theorem Shadows.untracked (h : Shadows q l key own now horizon) (hq : q.Usable)
    (hnone : l.bucket key = none) : ownSpend q own now = (.allow, .first q now) := by
  rcases h.same with hsame | ⟨-, b, rfl, hfull⟩
  · rw [← hsame, hnone]
    rfl
  · exact hfull.spend hq

/-- The own bucket after a check. -/
theorem Shadows.spent (h : Shadows q l key own now horizon)
    (hhorizon : horizon < now + 2 ^ 63)
    (hown : l'.bucket key = some (ownSpend q own now).2) :
    Shadows q l' key (some (ownSpend q own now).2) now horizon where
  tokens := by
    rintro _ ⟨⟩
    cases own with
    | some b => exact Bucket.spend_tokens_le
    | none => exact Nat.sub_le ..
  recent := by
    rintro _ ⟨⟩
    cases own with
    | some b =>
      show horizon < (b.spend q now).2.last + 2 ^ 63
      rwa [Bucket.spend_last]
    | none => exact hhorizon
  same := Or.inl hown

/-- **One check** of the key. -/
theorem Shadows.step (h : Shadows q l key own now horizon) (checked : Bool) (hl : l.Sound q)
    (hhorizon : horizon < now + 2 ^ 63) {d : Decision} (hc : Checked q l key now d l') :
    (l.refusesForRoom checked key now = true ∧ l' = l) ∨
    (l.refusesForRoom checked key now = false ∧ d = (ownSpend q own now).1 ∧
      Shadows q l' key (some (ownSpend q own now).2) now horizon) := by
  have hroom : l.refusesForRoom checked key now = true ↔ _ := hl.refusesForRoom_iff
  cases hc with
  | @spent b _ htracked hown hothers =>
    obtain rfl := h.tracked htracked
    refine Or.inr ⟨?_, rfl, h.spent hhorizon hown⟩
    rw [← Bool.not_eq_true, hroom, htracked]
    exact fun hnone => nomatch hnone.1
  | refused huntracked hfull hshort => exact Or.inl ⟨hroom.2 ⟨huntracked, hfull⟩, rfl⟩
  | inserted huntracked hfree hown hothers =>
    have hspend := h.untracked hl.usable huntracked
    refine Or.inr ⟨?_, ?_, h.spent hhorizon ?_⟩
    · rw [← Bool.not_eq_true, hroom]
      exact fun hfull => absurd hfull.2 (Nat.not_le.2 hfree)
    · rw [hspend]
    · rw [hspend]
      exact hown

/-- **One check** of another key. -/
theorem Shadows.step_other (h : Shadows q l key own now horizon) (hk : k ≠ key) {d : Decision}
    (hc : Checked q l k now d l') : Shadows q l' key own now horizon := by
  refine ⟨h.tokens, h.recent, ?_⟩
  cases hc with
  | spent htracked hown hothers =>
    rw [hothers key (Ne.symm hk)]
    exact h.same
  | refused huntracked hfull hshort => exact h.same
  | inserted huntracked hfree hown hothers =>
    rcases hothers key (Ne.symm hk) with hsame | ⟨hnone, b, hb, hfull⟩
    · rw [hsame]
      exact h.same
    · exact Or.inr ⟨hnone, b, h.tracked hb, hfull⟩

/-- **Any checks**, none later than `now`. -/
theorem shadows_run (checked : Bool) (hq : q.Usable) (capacity : ℕ) (key : String)
    (calls : List (String × ℕ)) (hsorted : calls.Pairwise (·.2 ≤ ·.2))
    (hnow : ∀ call ∈ calls, call.2 ≤ now) (hle : now ≤ horizon)
    (hspan : ∀ call ∈ calls, horizon < call.2 + 2 ^ 63) :
    Shadows q ((new q capacity).after checked calls) key
      (ownBucket checked q (admitted checked key (new q capacity) calls)) now horizon := by
  induction calls using List.reverseRecOn generalizing now with
  | nil => exact ⟨nofun, nofun, Or.inl rfl⟩
  | append_singleton calls call ih =>
    obtain ⟨hsorted, -, hlast⟩ := List.pairwise_append.1 hsorted
    have hcall : call.2 ≤ now := hnow call (by simp)
    have hshadows := ih hsorted (fun c hc => hlast c hc call (List.mem_singleton_self _))
      (hcall.trans hle) fun c hc => hspan c (List.mem_append_left _ hc)
    have hsound := ((new_sound hq capacity).after checked calls).1
    obtain ⟨d, l', hcheck, -, -, hchecked⟩ := hsound.checkAt checked call.1 call.2
    rw [after_concat, admitted_concat, hcheck]
    refine Shadows.mono ?_ hcall hle
    by_cases hk : call.1 = key
    · subst hk
      rcases hshadows.step checked hsound (hspan call (by simp)) hchecked with
        ⟨hroom, hsame⟩ | ⟨hroom, -, hspent⟩
      · rw [hroom, if_neg (by simp), List.append_nil, hsame]
        exact hshadows
      · rw [if_pos ⟨rfl, hroom⟩, ownBucket, run_concat, ← ownBucket,
          ownCheck_eq hq hshadows.tokens]
        exact hspent
    · rw [if_neg fun h => hk h.1, List.append_nil]
      exact hshadows.step_other hk hchecked

/-- **Eviction is invisible**, at every check of every run: the table is within
    its bound; a check is refused for want of room only if its key is not in it
    and all that are in it are short of full; and any other check is answered as
    the key's own bucket would have. -/
theorem eviction_invisible (checked : Bool) (q : Quota) (capacity : ℕ) (calls : List (String × ℕ))
    (key : String) (now : ℕ) (hburst : 1 ≤ q.burst.toNat) (hlow : 1000000000 ≤ q.perNanos)
    (hhigh : q.perNanos ≤ 2 ^ 60) (hsorted : (calls ++ [(key, now)]).Pairwise (·.2 ≤ ·.2))
    (hspan : ∀ call ∈ calls, now < call.2 + 2 ^ 63) :
    ((new q capacity).after checked calls).tracked ≤ max capacity 1 ∧
    (((new q capacity).after checked calls).refusesForRoom checked key now = true →
      ((new q capacity).after checked calls).buckets.lookup key = none ∧
      ∀ kb ∈ ((new q capacity).after checked calls).buckets,
        ∃ tokens, kb.2.refilled checked q now = some tokens ∧ tokens < q.capacityTokens) ∧
    (((new q capacity).after checked calls).refusesForRoom checked key now = false →
      ∃ d b, (((new q capacity).after checked calls).checkAt checked key now).1 = some d ∧
        ownCheck checked q
          (ownBucket checked q (admitted checked key (new q capacity) calls)) now = some (d, b)) := by
  have hper : q.perNanos64 = q.perNanos := Quota.perNanos64_eq (by omega) (by omega)
  have hq : q.Usable := ⟨hburst, by omega⟩
  obtain ⟨hsorted, -, hlast⟩ := List.pairwise_append.1 hsorted
  have hshadows := shadows_run checked hq capacity key calls hsorted
    (fun c hc => hlast c hc _ (List.mem_singleton_self _)) le_rfl hspan
  obtain ⟨hsound, hcapacity⟩ := (new_sound hq capacity).after checked calls
  generalize (new q capacity).after checked calls = l at *
  obtain ⟨d, l', hcheck, -, -, hchecked⟩ := hsound.checkAt checked key now
  refine ⟨?_, fun hroom => ?_, fun hroom => ?_⟩
  · unfold tracked
    rw [hsound.healthy]
    exact hsound.kept.length_le.trans_eq hcapacity
  · obtain ⟨hnone, hfull⟩ := hsound.refusesForRoom_iff.1 hroom
    refine ⟨hnone, fun kb hkb => ⟨_, Bucket.refilled_of_fits hq.per_ne
      (Bucket.level_lt hq (hsound.tokens kb hkb) _), ?_⟩⟩
    exact Nat.not_le.1 (hsound.all_short hfull kb hkb)
  · rcases hshadows.step checked hsound (by omega) hchecked with
      ⟨hroom', -⟩ | ⟨-, rfl, -⟩
    · rw [hroom] at hroom'
      cases hroom'
    · refine ⟨(ownSpend q _ now).1, (ownSpend q _ now).2, ?_, ownCheck_eq hq hshadows.tokens⟩
      rw [hcheck]

/-- A table of one: the key `b` comes in when the bucket of `a` is full again,
    and `a` finds no room. -/
theorem eviction_invisible_one :
    ((new (.new 1 60) 1).after true [("a", 0), ("b", 60000000000)]).tracked ≤ max 1 1 ∧
    ((new (.new 1 60) 1).after true [("a", 0), ("b", 60000000000)]).refusesForRoom true "a"
      60000000000 = true :=
  ⟨(eviction_invisible true (.new 1 60) 1 [("a", 0), ("b", 60000000000)] "a" 60000000000 (by decide)
    (by decide) (by decide) (by decide) (by decide)).1, by decide +kernel⟩

end Limiter

end SessionBroker
