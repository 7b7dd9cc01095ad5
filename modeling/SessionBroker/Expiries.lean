/-
  Expiries and the end of `u64` (`Timestamp::plus_secs`, `clock.rs`).

  `plus_secs` takes its seconds for an `i64`, and `since` subtracts without
  care.

  * `Timestamp.Advances`: what adding two durations owes;
  * `Timestamp.sinceIn`: `since` in either build;
  * `NoneBefore`: no expiry that is set at an instant is before it;
  * `expiry_iff`: all of it holds exactly for durations below `2^63` and
    instants less than the width of an `i64` apart.
-/
import SessionBroker.Callback
import SessionBroker.Usable

namespace SessionBroker

open Signed

namespace Timestamp

/-- `since`; `none` is the panic of a checked build. -/
def sinceIn (build : Build) (t earlier : Timestamp) : Option ℕ :=
  (sub build (2 ^ 63) t.secs earlier.secs).map fun d => if d < 0 then 0 else d.toNat

theorem sinceIn_wrapping (t earlier : Timestamp) : t.sinceIn .wrapping earlier = some (t.since earlier) := by
  unfold sinceIn since sub
  split_ifs with hfit
  · have hmod := bmod_of_fits hfit
    rw [Option.map_some, show (2 ^ 64 : ℕ) = 2 * 2 ^ 63 by decide, hmod]
  · rfl

theorem sinceIn_of_fits {build : Build} {t earlier : Timestamp} (h : Fits (2 ^ 63) (t.secs - earlier.secs)) :
    t.sinceIn build earlier = some (t.secs - earlier.secs).toNat := by
  rw [sinceIn, sub_of_fits h, Option.map_some]
  split_ifs with hneg
  · rw [Int.toNat_of_nonpos hneg.le]
  · rfl

/-- `since` does not overflow. -/
def Subtracts (t earlier : Timestamp) : Prop :=
  ∀ build, t.sinceIn build earlier = some (t.secs - earlier.secs).toNat

theorem subtracts_iff {t earlier : Timestamp} :
    t.Subtracts earlier ↔ Fits (2 ^ 63) (t.secs - earlier.secs) := by
  constructor
  · intro h
    by_contra hnot
    have hchecked := h .checked
    rw [sinceIn, sub_checked_of_not_fits hnot] at hchecked
    cases hchecked
  · exact fun h build => sinceIn_of_fits h

/-- What `plus_secs` owes to an instant and two durations. -/
structure Advances (t : Timestamp) (s r : ℕ) : Prop where
  later : t ≤ t.plusSecs s
  mono : s ≤ r → t.plusSecs s ≤ t.plusSecs r
  since : ∀ build, (t.plusSecs s).sinceIn build t = some (min (s : ℤ) (2 ^ 63 - 1 - t.secs)).toNat

variable {t : Timestamp} {s r : ℕ}

/-- From `2^63` seconds on the addition leads back. -/
theorem le_plusSecs_iff (hi : t.IsI64) (h0 : 0 ≤ t.secs) (hs : s < 2 ^ 64) :
    t ≤ t.plusSecs s ↔ s < 2 ^ 63 := by
  have hhi := hi.2
  rw [le_iff]
  rcases lt_or_ge s (2 ^ 63) with hlt | hge
  · rw [plusSecs_of_lt hi hlt]
    omega
  · simp only [plusSecs, asI64_of_ge hge hs]
    omega

theorem advances_iff (hi : t.IsI64) (h0 : 0 ≤ t.secs) (hs : s < 2 ^ 64) (hr : r < 2 ^ 64) :
    t.Advances s r ↔ s < 2 ^ 63 ∧ r < 2 ^ 63 := by
  have hhi := hi.2
  constructor
  · intro h
    have hlt := (le_plusSecs_iff hi h0 hs).1 h.later
    refine ⟨hlt, ?_⟩
    by_contra hge
    have hback : t ≤ t.plusSecs r := h.later.trans (h.mono (by omega))
    exact hge ((le_plusSecs_iff hi h0 hr).1 hback)
  · rintro ⟨hlt, hlt'⟩
    refine ⟨(le_plusSecs_iff hi h0 hs).2 hlt, fun hsr => ?_, fun build => ?_⟩
    · rw [le_iff, plusSecs_of_lt hi hlt, plusSecs_of_lt hi hlt']
      omega
    · have hsum := plusSecs_of_lt hi hlt
      have hfit : Fits (2 ^ 63) ((t.plusSecs s).secs - t.secs) := by
        rw [hsum]
        constructor <;> omega
      rw [sinceIn_of_fits hfit, hsum]
      congr 2
      omega

end Timestamp

/-! ## Expiries -/

/-- What `refresh_grant` reads off an answer: the lifetime and the expiry. -/
def refreshGrantExpiry (now : Timestamp) (expiresIn : Option ℕ) : ℕ × Timestamp :=
  let lifetimeSecs := expiresIn.getD 300
  (lifetimeSecs, now.plusSecs lifetimeSecs)

/-- The durations of a policy are `u64`s. -/
def SessionPolicy.Below (policy : SessionPolicy) (bound : ℕ) : Prop :=
  policy.genTtlSecs < bound ∧ policy.graceSecs < bound ∧ policy.idleTtlSecs < bound ∧
    policy.absoluteTtlSecs < bound

/-- No expiry that is set at `now` is before it. -/
structure NoneBefore (policy : SessionPolicy) (expiresIn : Option ℕ) (now : Timestamp) : Prop where
  created : ∀ sid custody sub token, let e := SessionMap.newEntry policy sid custody sub token now
    now ≤ e.absoluteExp ∧ now ≤ e.idleExp ∧ ∀ g ∈ e.gens, now ≤ g.activeUntil
  minted : ∀ (e : SessionEntry) token, ∀ g ∈ (e.mint token now policy).2.added, now ≤ g.activeUntil
  slid : ∀ e : SessionEntry, now ≤ e.absoluteExp → now ≤ (e.slide now policy).idleExp
  superseded : ∀ g : Generation, now ≤ g.activeUntil →
    now ≤ ({ g with supersededAt := some now }).resourceValidUntil policy.graceSecs
  login : ∀ client grant sub tokens, grant.expiresIn = expiresIn →
    CallbackStage.ofGrant client now (.ok grant) = .identified client sub tokens → now ≤ tokens.expiresAt
  refreshed : now ≤ (refreshGrantExpiry now expiresIn).2

section

variable {policy : SessionPolicy} {expiresIn : Option ℕ} {now : Timestamp}

theorem getD_lt_iff {bound : ℕ} (h : 300 < bound) :
    expiresIn.getD 300 < bound ↔ ∀ d ∈ expiresIn, d < bound := by
  cases expiresIn with
  | none => simpa using h
  | some d => simp

theorem NoneBefore.below (h : NoneBefore policy expiresIn now) (hi : now.IsI64) (h0 : 0 ≤ now.secs)
    (hpolicy : policy.Below (2 ^ 64)) (hexpires : ∀ d ∈ expiresIn, d < 2 ^ 64) :
    policy.Below (2 ^ 63) ∧ ∀ d ∈ expiresIn, d < 2 ^ 63 := by
  obtain ⟨hgen, hgrace, hidle, habsolute⟩ := hpolicy
  obtain ⟨hleast, hslid, hactive⟩ := h.created ⟨""⟩ ⟨""⟩ "" .sample1
  have hsuperseded := h.superseded ⟨1, SessionToken.sample1.hash, now, now, none⟩ le_rfl
  refine ⟨⟨?_, ?_, ?_, ?_⟩, ?_⟩
  · exact (Timestamp.le_plusSecs_iff hi h0 hgen).1 (hactive _ (.head _))
  · exact (Timestamp.le_plusSecs_iff hi h0 hgrace).1 (hsuperseded.trans (min_le_right ..))
  · exact (Timestamp.le_plusSecs_iff hi h0 hidle).1 (hslid.trans (min_le_left ..))
  · exact (Timestamp.le_plusSecs_iff hi h0 habsolute).1 hleast
  · rw [← getD_lt_iff (by decide)] at hexpires ⊢
    exact (Timestamp.le_plusSecs_iff hi h0 hexpires).1 h.refreshed

theorem noneBefore_of_below (hi : now.IsI64) (h0 : 0 ≤ now.secs) (hpolicy : policy.Below (2 ^ 63))
    (hexpires : ∀ d ∈ expiresIn, d < 2 ^ 63) : NoneBefore policy expiresIn now := by
  obtain ⟨hgen, hgrace, hidle, habsolute⟩ := hpolicy
  have hlater : ∀ {secs : ℕ}, secs < 2 ^ 63 → now ≤ now.plusSecs secs := fun hlt =>
    (Timestamp.le_plusSecs_iff hi h0 (hlt.trans (by decide))).2 hlt
  have haccess : now ≤ now.plusSecs (expiresIn.getD 300) := hlater ((getD_lt_iff (by decide)).2 hexpires)
  refine ⟨fun sid custody sub token => ⟨hlater habsolute, ?_, ?_⟩, ?_, ?_, ?_, ?_, haccess⟩
  · exact le_min (hlater hidle) (hlater habsolute)
  · intro g hg
    rw [List.mem_singleton.1 hg]
    exact hlater hgen
  · rintro e token g ⟨⟩
    exact hlater hgen
  · exact fun e hopen => le_min (hlater hidle) hopen
  · exact fun g hg => le_min hg (hlater hgrace)
  · rintro client grant sub tokens rfl hgrant
    cases hgrant
    exact haccess

end

/-- **Expiries lie ahead** exactly while the durations are below `2^63`, and
    differences are taken between instants that are not too far apart. -/
theorem expiry_iff {now a b : Timestamp} {s r : ℕ} {policy : SessionPolicy} {expiresIn : Option ℕ}
    (hi : now.IsI64) (h0 : 0 ≤ now.secs) (hs : s < 2 ^ 64) (hr : r < 2 ^ 64)
    (hpolicy : policy.Below (2 ^ 64)) (hexpires : ∀ d ∈ expiresIn, d < 2 ^ 64) :
    (now.Advances s r ∧ a.Subtracts b ∧ NoneBefore policy expiresIn now) ↔
      (s < 2 ^ 63 ∧ r < 2 ^ 63) ∧ Fits (2 ^ 63) (a.secs - b.secs) ∧
        policy.Below (2 ^ 63) ∧ ∀ d ∈ expiresIn, d < 2 ^ 63 := by
  rw [Timestamp.advances_iff hi h0 hs hr, Timestamp.subtracts_iff]
  constructor
  · rintro ⟨hsmall, hfit, hnone⟩
    exact ⟨hsmall, hfit, hnone.below hi h0 hpolicy hexpires⟩
  · rintro ⟨hsmall, hfit, hbelow, hbelow'⟩
    exact ⟨hsmall, hfit, noneBefore_of_below hi h0 hbelow hbelow'⟩

theorem expiry_defaults : ((⟨1700000000⟩ : Timestamp).Advances 600 3600 ∧
    (⟨1700000600⟩ : Timestamp).Subtracts ⟨1700000000⟩ ∧ NoneBefore {} none ⟨1700000000⟩) ↔
      (600 < 2 ^ 63 ∧ 3600 < 2 ^ 63) ∧ Fits (2 ^ 63) ((1700000600 : ℤ) - 1700000000) ∧
        ({} : SessionPolicy).Below (2 ^ 63) ∧ ∀ d ∈ (none : Option ℕ), d < 2 ^ 63 :=
  expiry_iff (a := ⟨1700000600⟩) (b := ⟨1700000000⟩) (by decide) (by decide) (by decide) (by decide)
    ⟨by decide, by decide, by decide, by decide⟩ nofun

/-- A lifetime of `2^64 - 1` seconds ends a second ago; and the two ends of `i64`
    have no difference. -/
theorem endless_lifetime_is_over :
    (⟨1700000000⟩ : Timestamp).plusSecs (2 ^ 64 - 1) = ⟨1699999999⟩ ∧
    (refreshGrantExpiry ⟨1700000000⟩ (some (2 ^ 64 - 1))).2 < ⟨1700000000⟩ ∧
    (SessionMap.newEntry { genTtlSecs := 2 ^ 64 - 1 } ⟨"s"⟩ ⟨"c"⟩ "alice" .sample1 ⟨1700000000⟩).current.activeUntil <
      ⟨1700000000⟩ ∧
    (⟨2 ^ 63 - 1⟩ : Timestamp).sinceIn .checked ⟨-2 ^ 63⟩ = none := by
  decide +kernel

end SessionBroker
