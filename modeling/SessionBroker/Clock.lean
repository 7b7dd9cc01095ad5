/-
  Time (`clock.rs`): epoch-second instants, with the saturating addition and
  the clamped difference that every expiry rule of the broker is made of.

  An instant is an `i64` in the source and an integer here; the two operations
  do what the source's do on the whole `i64` range.
-/
import SessionBroker.Lib.Signed
import Mathlib.Order.Lattice
import Mathlib.Algebra.Order.Ring.Int
import Mathlib.Data.Int.Order.Basic
import Mathlib.Order.Basic

namespace SessionBroker

open Signed

/-- An epoch-seconds instant. -/
@[ext]
structure Timestamp where
  secs : ℤ
deriving DecidableEq, Repr

/-- `secs as i64` for a `u64`: from `2^63` on the result is negative. -/
def asI64 (secs : ℕ) : ℤ := Int.bmod secs (2 ^ 64)

theorem asI64_of_lt {secs : ℕ} (h : secs < 2 ^ 63) : asI64 secs = secs :=
  Int.bmod_eq_of_le (by omega) (by omega)

theorem asI64_of_ge {secs : ℕ} (h : 2 ^ 63 ≤ secs) (h64 : secs < 2 ^ 64) :
    asI64 secs = secs - 2 ^ 64 := by
  have hmod := bmod_of_ge h (show secs < 2 * 2 ^ 63 by omega)
  have htwice : 2 * 2 ^ 63 = (2 ^ 64 : ℕ) := by decide
  rw [htwice] at hmod
  exact hmod.trans (by omega)

theorem fits_asI64 {secs : ℕ} (h : secs < 2 ^ 64) : Fits (2 ^ 63) (asI64 secs) := by
  rcases lt_or_ge secs (2 ^ 63) with hlt | hge
  · rw [asI64_of_lt hlt]
    constructor <;> omega
  · rw [asI64_of_ge hge h]
    constructor <;> omega

namespace Timestamp

instance : LinearOrder Timestamp := LinearOrder.lift' secs fun _ _ => Timestamp.ext

theorem le_iff {t t' : Timestamp} : t ≤ t' ↔ t.secs ≤ t'.secs := Iff.rfl

theorem lt_iff {t t' : Timestamp} : t < t' ↔ t.secs < t'.secs := Iff.rfl

/-- An instant of the source is an `i64`. -/
def IsI64 (t : Timestamp) : Prop := -2 ^ 63 ≤ t.secs ∧ t.secs < 2 ^ 63

instance {t : Timestamp} : Decidable t.IsI64 := inferInstanceAs (Decidable (_ ∧ _))

theorem IsI64.fits {t : Timestamp} (h : t.IsI64) : Fits (2 ^ 63) t.secs := by
  have hlo := h.1
  have hhi := h.2
  constructor <;> omega

/-- `Timestamp::plus_secs`: addition saturating at both ends of `i64`. -/
def plusSecs (t : Timestamp) (secs : ℕ) : Timestamp :=
  ⟨max (-2 ^ 63) (min (2 ^ 63 - 1) (t.secs + asI64 secs))⟩

/-- `Timestamp::since`: seconds elapsed since `earlier`, clamped at zero.  The
    subtraction wraps, as it does in a release build. -/
def since (t earlier : Timestamp) : ℕ :=
  let d := Int.bmod (t.secs - earlier.secs) (2 ^ 64)
  if d < 0 then 0 else d.toNat

/-- Below `2^63` seconds, the addition stops at the end of `i64`. -/
theorem plusSecs_of_lt {t : Timestamp} (hi : t.IsI64) {secs : ℕ} (h : secs < 2 ^ 63) :
    (t.plusSecs secs).secs = min (2 ^ 63 - 1) (t.secs + secs) := by
  have hlo := hi.1
  simp only [plusSecs, asI64_of_lt h]
  omega

/-- From there on it goes back. -/
theorem plusSecs_of_ge {t : Timestamp} (hi : t.IsI64) {secs : ℕ} (h : 2 ^ 63 ≤ secs)
    (h64 : secs < 2 ^ 64) : t.plusSecs secs ≤ t := by
  have hlo := hi.1
  rw [le_iff]
  simp only [plusSecs, asI64_of_ge h h64]
  omega

theorem plusSecs_le_add {t : Timestamp} (hi : t.IsI64) {secs : ℕ} (h64 : secs < 2 ^ 64) :
    (t.plusSecs secs).secs ≤ t.secs + secs := by
  rcases lt_or_ge secs (2 ^ 63) with hlt | hge
  · rw [plusSecs_of_lt hi hlt]
    omega
  · have hback := le_iff.1 (plusSecs_of_ge hi hge h64)
    omega

/-- **Later**, by how much at least. -/
theorem add_le_plusSecs_iff {t : Timestamp} (hi : t.IsI64) {secs wish : ℕ} (h64 : secs < 2 ^ 64)
    (hwish : 1 ≤ wish ∨ secs ≤ wish) :
    t.secs + wish ≤ (t.plusSecs secs).secs ↔
      wish ≤ secs ∧ secs < 2 ^ 63 ∧ t.secs + wish < 2 ^ 63 := by
  have hhi := hi.2
  rcases lt_or_ge secs (2 ^ 63) with hlt | hge
  · rw [plusSecs_of_lt hi hlt]
    omega
  · have hback := le_iff.1 (plusSecs_of_ge hi hge h64)
    omega

theorem plusSecs_mono {t t' : Timestamp} (h : t ≤ t') (secs : ℕ) :
    t.plusSecs secs ≤ t'.plusSecs secs := by
  rw [le_iff] at h ⊢
  simp only [plusSecs]; omega

/-- Between `0` and `2^62` the addition is exact. -/
theorem plusSecs_exact {t : Timestamp} {secs : ℕ} (h₀ : 0 ≤ t.secs) (h₁ : t.secs < 2 ^ 62)
    (h₂ : secs < 2 ^ 62) : (t.plusSecs secs).secs = t.secs + secs := by
  simp only [plusSecs, asI64_of_lt (show secs < 2 ^ 63 by omega)]
  omega

end Timestamp

end SessionBroker
