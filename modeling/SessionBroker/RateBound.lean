/-
  How many checks of one key the limiter allows in a window of time.

  * `Paid`: every check that was allowed since the start of the window was paid
    for out of the budget and of what came back in the meantime;
  * `allowed_le`: over any checks at nondecreasing instants.
-/
import Mathlib.Tactic.Ring
import SessionBroker.Budget

namespace SessionBroker

namespace Limiter

/-- The checks of `key` in `[s, e]` that are allowed. -/
def allowedWithin (checked : Bool) (l : Limiter) (key : String) (s e : ℕ)
    (calls : List (String × ℕ)) : ℕ :=
  (l.trace checked calls).countP fun (call, answer) =>
    call.1 = key ∧ s ≤ call.2 ∧ call.2 ≤ e ∧ answer = some .allow

variable {checked : Bool} {q : Quota} {l l' : Limiter} {key : String} {s e n now : ℕ}

theorem allowedWithin_concat (calls : List (String × ℕ)) (call : String × ℕ) :
    l.allowedWithin checked key s e (calls ++ [call]) = l.allowedWithin checked key s e calls +
      if call.1 = key ∧ s ≤ call.2 ∧ call.2 ≤ e ∧
        ((l.after checked calls).checkAt checked call.1 call.2).1 = some .allow then 1 else 0 := by
  unfold allowedWithin
  rw [trace_concat, List.countP_append, List.countP_singleton]
  simp

/-! ## What is paid for -/

/-- `n` checks of `key` were allowed from the instant `s` on.  In millionths of
    a token and nanoseconds of the window they cost no more than the budget and
    what came back since, less what is left in the bucket. -/
structure Paid (q : Quota) (key : String) (s : ℕ) (l : Limiter) (n now : ℕ) : Prop where
  tracked : ∀ b, l.bucket key = some b → b.last ≤ now ∧ (n = 0 ∨ s ≤ b.last) ∧
    n * (scale * q.perNanos64) + b.tokens * q.perNanos64 ≤
      q.capacityTokens * q.perNanos64 + (b.last - s) * q.capacityTokens
  untracked : l.bucket key = none → n * (scale * q.perNanos64) ≤ (now - s) * q.capacityTokens

theorem Paid.mono (h : Paid q key s l n now) {now' : ℕ} (hle : now ≤ now') :
    Paid q key s l n now' where
  tracked := by
    intro b hb
    obtain ⟨hlast, hpaid⟩ := h.tracked b hb
    exact ⟨hlast.trans hle, hpaid⟩
  untracked := by
    intro hnone
    exact (h.untracked hnone).trans (Nat.mul_le_mul_right _ (Nat.sub_le_sub_right hle s))

/-- The instants in between cancel. -/
theorem sub_mul_add_sub_mul {a b c : ℕ} (k : ℕ) (hab : a ≤ b) (hbc : b ≤ c) :
    (b - a) * k + (c - b) * k = (c - a) * k := by
  rw [← Nat.add_mul]
  congr 1
  omega

theorem Paid.bound (h : Paid q key s l n now) : n * (scale * q.perNanos64) ≤
    q.capacityTokens * q.perNanos64 + (now - s) * q.capacityTokens := by
  cases hb : l.bucket key with
  | none => exact (h.untracked hb).trans (Nat.le_add_left ..)
  | some b =>
    obtain ⟨hlast, -, hpaid⟩ := h.tracked b hb
    have hmul : (b.last - s) * q.capacityTokens ≤ (now - s) * q.capacityTokens :=
      Nat.mul_le_mul_right _ (Nat.sub_le_sub_right hlast s)
    omega

/-- What is in the bucket at a later instant is paid for as well. -/
theorem Paid.available (h : Paid q key s l n now) {b : Bucket} (hb : l.bucket key = some b) :
    n * (scale * q.perNanos64) + b.available q now * q.perNanos64 ≤
      q.capacityTokens * q.perNanos64 + (now - s) * q.capacityTokens := by
  obtain ⟨hlast, hstart, hpaid⟩ := h.tracked b hb
  rcases hstart with rfl | hstart
  · have hcap : b.available q now * q.perNanos64 ≤ q.capacityTokens * q.perNanos64 :=
      Nat.mul_le_mul_right _ Bucket.available_le
    omega
  · have hlevel : b.available q now * q.perNanos64 ≤
        (b.tokens + q.refill (now - b.last)) * q.perNanos64 :=
      Nat.mul_le_mul_right _ (Nat.min_le_left ..)
    have hrefill := q.refill_mul_le (now - b.last)
    have hsplit := sub_mul_add_sub_mul q.capacityTokens hstart hlast
    rw [Nat.add_mul] at hlevel
    omega

/-- A full bucket that goes leaves its debts paid. -/
theorem Paid.evicted (h : Paid q key s l n now) {b : Bucket} (hb : l.bucket key = some b)
    (hfull : b.Full q now) : n * (scale * q.perNanos64) ≤ (now - s) * q.capacityTokens := by
  have havailable : b.available q now = q.capacityTokens := Nat.min_eq_right hfull
  have hpaid := h.available hb
  rw [havailable] at hpaid
  omega

/-- A bucket that is as full as can be paid for, before and after it is asked. -/
theorem paid_spend (tokens : ℕ) {b' : Bucket} {d : Decision} (hown : l'.bucket key = some b') (hlast : b'.last = now)
    (hstart : n = 0 ∨ s ≤ now)
    (hpaid : n * (scale * q.perNanos64) + tokens * q.perNanos64 ≤
      q.capacityTokens * q.perNanos64 + (now - s) * q.capacityTokens)
    (hspent : d = .allow ∧ b'.tokens + scale = tokens ∨ d ≠ .allow ∧ b'.tokens = tokens) :
    Paid q key s l' (n + if s ≤ now ∧ d = .allow then 1 else 0) now where
  tracked := by
    intro b hb
    rw [hown] at hb
    cases hb
    rw [hlast]
    refine ⟨le_rfl, ?_, ?_⟩
    · by_cases hs : s ≤ now
      · exact Or.inr hs
      · rw [if_neg fun h => hs h.1]
        exact hstart
    · rcases hspent with ⟨rfl, rfl⟩ | ⟨hd, rfl⟩
      · rw [Nat.add_mul] at hpaid
        split_ifs
        · rw [Nat.add_mul, Nat.one_mul]
          omega
        · rw [Nat.add_zero]
          omega
      · rw [if_neg fun h => hd h.2]
        exact hpaid
  untracked := by
    intro hnone
    rw [hown] at hnone
    cases hnone

/-- **One check.** -/
theorem Paid.step (hq : q.Usable) (h : Paid q key s l n now) {k : String} {d : Decision}
    (hc : Checked q l k now d l') :
    Paid q key s l' (n + if k = key ∧ s ≤ now ∧ d = .allow then 1 else 0) now := by
  cases hc with
  | @spent b _ htracked hown hothers =>
    by_cases hk : k = key
    · subst hk
      simp only [true_and]
      obtain ⟨hlast, hstart, -⟩ := h.tracked b htracked
      refine paid_spend _ hown Bucket.spend_last (hstart.imp_right hlast.trans') (h.available htracked) ?_
      unfold Bucket.spend
      split_ifs with hscale
      · exact Or.inl ⟨rfl, Nat.sub_add_cancel hscale⟩
      · exact Or.inr ⟨nofun, rfl⟩
    · rw [if_neg fun h => hk h.1]
      have hsame := hothers key (Ne.symm hk)
      exact ⟨fun b hb => h.tracked b (hsame ▸ hb), fun hnone => h.untracked (hsame ▸ hnone)⟩
  | refused huntracked hfull hshort =>
    rw [if_neg fun h => nomatch h.2.2]
    exact h
  | inserted huntracked hroom hown hothers =>
    by_cases hk : k = key
    · subst hk
      have hpaid := h.untracked huntracked
      have hbudget : n * (scale * q.perNanos64) + q.capacityTokens * q.perNanos64 ≤
          q.capacityTokens * q.perNanos64 + (now - s) * q.capacityTokens := by omega
      have hstart : n = 0 ∨ s ≤ now := by
        by_contra hnot
        have hpos : 0 < scale * q.perNanos64 := Nat.mul_pos (by decide) (by have := hq.per; omega)
        rw [Nat.sub_eq_zero_of_le (by omega), Nat.zero_mul, Nat.le_zero, Nat.mul_eq_zero] at hpaid
        omega
      have hlast : (Bucket.first q now).last = now := rfl
      have hspent := paid_spend q.capacityTokens hown hlast hstart hbudget
        (Or.inl ⟨rfl, Nat.sub_add_cancel hq.scale_le⟩)
      simpa using hspent
    · rw [if_neg fun h => hk h.1]
      rcases hothers key (Ne.symm hk) with hsame | ⟨hnone, b, hb, hfull⟩
      · exact ⟨fun b hb => h.tracked b (hsame ▸ hb), fun hnone => h.untracked (hsame ▸ hnone)⟩
      · refine ⟨fun b' hb' => ?_, fun _ => h.evicted hb hfull⟩
        rw [hnone] at hb'
        cases hb'

/-! ## Runs -/

/-- **Any checks**, none later than `now`. -/
theorem paid_run (checked : Bool) (hq : q.Usable) (capacity : ℕ) (calls : List (String × ℕ))
    (key : String) (s : ℕ) (hsorted : calls.Pairwise (·.2 ≤ ·.2)) (hnow : ∀ call ∈ calls, call.2 ≤ now) (hle : now ≤ e) :
    Paid q key s ((new q capacity).after checked calls)
      ((new q capacity).allowedWithin checked key s e calls) now := by
  induction calls using List.reverseRecOn generalizing now with
  | nil => exact ⟨nofun, fun _ => (Nat.zero_mul _).trans_le (Nat.zero_le _)⟩
  | append_singleton calls call ih =>
    obtain ⟨hsorted, -, hlast⟩ := List.pairwise_append.1 hsorted
    have hcall : call.2 ≤ now := hnow call (by simp)
    have hpaid := ih hsorted (fun c hc => hlast c hc call (List.mem_singleton_self _))
      (hcall.trans hle)
    obtain ⟨d, l', hcheck, -, -, hchecked⟩ :=
      ((new_sound hq capacity).after checked calls).1.checkAt checked call.1 call.2
    rw [after_concat, allowedWithin_concat, hcheck]
    simpa [hcall.trans hle] using (hpaid.step hq hchecked).mono hcall

/-- The millionths and the nanoseconds go. -/
theorem le_of_paid {burst window per : ℕ} (hper : 0 < per)
    (h : n * (scale * per) ≤ burst * scale * per + window * (burst * scale)) :
    n ≤ burst + window * burst / per := by
  have hscaled : scale * (n * per) ≤ scale * (burst * per + window * burst) :=
    calc scale * (n * per) = n * (scale * per) := by ring
      _ ≤ burst * scale * per + window * (burst * scale) := h
      _ = scale * (burst * per + window * burst) := by ring
  have hle : n * per ≤ burst * per + window * burst := Nat.le_of_mul_le_mul_left hscaled (by decide)
  have hrest : n - burst ≤ window * burst / per := by
    rw [Nat.le_div_iff_mul_le hper, Nat.sub_mul]
    omega
  omega

/-- **The limit**: in any window of the length `window` a key has no more than
    the burst and its share of the window, whatever else is checked. -/
theorem allowed_le (checked : Bool) (q : Quota) (capacity : ℕ) (calls : List (String × ℕ))
    (key : String) (s window : ℕ) (hburst : 1 ≤ q.burst.toNat) (hlow : 1000000000 ≤ q.perNanos)
    (hhigh : q.perNanos ≤ 2 ^ 60) (hsorted : calls.Pairwise (·.2 ≤ ·.2)) :
    (new q capacity).allowedWithin checked key s (s + window) calls ≤
      q.burst.toNat + window * q.burst.toNat / q.perNanos := by
  have hper : q.perNanos64 = q.perNanos := Quota.perNanos64_eq (by omega) (by omega)
  have hq : q.Usable := ⟨hburst, by omega⟩
  induction calls using List.reverseRecOn with
  | nil => exact Nat.zero_le _
  | append_singleton calls call ih =>
    by_cases hend : call.2 ≤ s + window
    · have hlast := (List.pairwise_append.1 hsorted).2.2
      have hnow : ∀ c ∈ calls ++ [call], c.2 ≤ s + window := by
        intro c hc
        rcases List.mem_append.1 hc with hc | hc
        · exact (hlast c hc call (List.mem_singleton_self _)).trans hend
        · rwa [List.mem_singleton.1 hc]
      have hpaid := (paid_run checked hq capacity _ key s hsorted hnow le_rfl).bound
      rw [hper, Nat.add_sub_cancel_left] at hpaid
      exact le_of_paid (by omega) hpaid
    · rw [allowedWithin_concat, if_neg fun h => hend h.2.2.1]
      exact ih (List.pairwise_append.1 hsorted).1

/-- Three checks in a minute, of which the limit allows two. -/
theorem allowed_le_minute :
    (new (.new 1 60) 16).allowedWithin true "k" 0 (0 + 60000000000)
      [("k", 0), ("k", 30000000000), ("k", 60000000000)] ≤ 1 + 60000000000 * 1 / 60000000000 :=
  allowed_le true (.new 1 60) 16 [("k", 0), ("k", 30000000000), ("k", 60000000000)] "k" 0
    60000000000 (by decide) (by decide) (by decide) (by decide)

end Limiter

end SessionBroker
