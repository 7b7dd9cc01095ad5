/-
  The numbers of JavaScript, without rounding, and the delay of a timer.

  * `Number`: `NaN`, the infinities and the rationals;
  * `timeout`: what `setTimeout` makes of a delay, which it converts to 32 bits;
  * `untilAt`: the delay that is left until the later of a number and an
    integer, as `Math.max(0, Math.max(at, floor) - now)` computes it;
  * `Fits`: a delay that is kept.  One that does not fit is no delay at all;
  * `backoff`: a delay that doubles up to a maximum, and when it keeps its
    bounds.
-/
import Mathlib.Data.Rat.Floor
import Mathlib.Algebra.Order.Field.Basic

namespace Js

/-- A number. -/
inductive Number where
  | nan
  | negInfinity
  | finite (x : ℚ)
  | infinity
deriving DecidableEq, Repr

namespace Number

/-- A function that fixes `NaN` and the infinities. -/
def map (f : ℚ → ℚ) : Number → Number
  | finite x => finite (f x)
  | x => x

/-- `Math.max(x, n)`. -/
def max (x : Number) (n : ℤ) : Number :=
  match x with
  | nan => nan
  | negInfinity => finite n
  | finite x => finite (x ⊔ n)
  | infinity => infinity

/-- `x <= n`. -/
def le (x : Number) (n : ℤ) : Bool :=
  match x with
  | nan => false
  | negInfinity => true
  | finite x => x ≤ n
  | infinity => false

/-- `Math.max(0, Math.max(at, floor) - now)`. -/
def untilAt (at_ : Number) (floor now : ℤ) : Number := (((at_.max floor).map (· - now)).max 0)

/-- A delay that `setTimeout` keeps. -/
def Fits : Number → Prop
  | finite x => x < 2 ^ 31
  | _ => False

instance : ∀ x : Number, Decidable x.Fits
  | finite x => inferInstanceAs (Decidable (x < 2 ^ 31))
  | nan | negInfinity | infinity => isFalse id

/-- The whole milliseconds that `setTimeout` waits. -/
def timeout : Number → ℤ
  | finite x => if x < 2 ^ 31 then ⌊x⌋ else 0
  | _ => 0

variable {at_ : Number} {floor now : ℤ}

/-- A timer does not go off in the past. -/
theorem timeout_untilAt_nonneg (at_ : Number) (floor now : ℤ) : 0 ≤ (at_.untilAt floor now).timeout := by
  unfold untilAt
  cases (at_.max floor).map (· - now) with
  | nan | infinity => exact le_rfl
  | negInfinity => exact le_rfl
  | finite x =>
    simp only [max, timeout]
    split_ifs
    · exact Int.floor_nonneg.2 (le_max_right ..)
    · exact le_rfl

/-- A delay that is kept is no shorter than to the floor. -/
theorem floor_le (h : (at_.untilAt floor now).Fits) :
    floor ≤ now + (at_.untilAt floor now).timeout := by
  have key : ∀ x : ℚ, (floor : ℚ) ≤ x → floor - now ≤ ⌊(x - now) ⊔ ((0 : ℤ) : ℚ)⌋ := by
    intro x hx
    refine Int.le_floor.2 (le_trans ?_ (le_max_left ..))
    push_cast
    linarith
  cases at_ with
  | nan | infinity => exact absurd h id
  | negInfinity =>
    have hle := key floor le_rfl
    simp only [untilAt, max, map, Fits] at h
    simp only [untilAt, max, map, timeout]
    rw [if_pos h]
    omega
  | finite x =>
    have hle := key (x ⊔ floor) (le_max_right ..)
    simp only [untilAt, max, map, Fits] at h
    simp only [untilAt, max, map, timeout]
    rw [if_pos h]
    omega

/-! ## A delay that doubles -/

/-- Where the range of a double ends. -/
@[irreducible] def doubleRange : ℚ := 2 ^ 1024

/-- A result of which only the range is that of a double. -/
def ofRat (x : ℚ) : Number :=
  if doubleRange ≤ x then infinity else if x ≤ -doubleRange then negInfinity else finite x

/-- `x * infinity`. -/
def timesInfinity : Number → Number
  | nan => nan
  | negInfinity => negInfinity
  | finite x => if 0 < x then infinity else if x < 0 then negInfinity else nan
  | infinity => infinity

/-- `x * 2 ** n`. -/
def timesPow2 (x : Number) (n : ℕ) : Number :=
  if 1024 ≤ n then x.timesInfinity
  else
    match x with
    | finite x => ofRat (x * 2 ^ n)
    | x => x

/-- `Math.min`. -/
def min : Number → Number → Number
  | nan, _ | _, nan => nan
  | negInfinity, _ | _, negInfinity => negInfinity
  | infinity, y => y
  | x, infinity => x
  | finite x, finite y => finite (x ⊓ y)

/-- `Math.min(base * 2 ** n, maximum)`. -/
def backoff (base maximum : Number) (n : ℕ) : Number := (base.timesPow2 n).min maximum

/-- `x <= y`. -/
def LessEq : Number → Number → Prop
  | nan, _ | _, nan => False
  | negInfinity, _ | _, infinity => True
  | finite x, finite y => x ≤ y
  | _, _ => False

instance : LE Number := ⟨LessEq⟩

instance decidableLessEq : ∀ x y : Number, Decidable (x ≤ y)
  | nan, _ => isFalse id
  | negInfinity, nan | finite _, nan | infinity, nan => isFalse id
  | negInfinity, negInfinity | negInfinity, finite _ | negInfinity, infinity => isTrue trivial
  | finite _, infinity | infinity, infinity => isTrue trivial
  | finite x, finite y => inferInstanceAs (Decidable (x ≤ y))
  | finite _, negInfinity | infinity, negInfinity | infinity, finite _ => isFalse id

section
variable {x y z base maximum : Number}

theorem finite_le {a b : ℚ} : finite a ≤ finite b ↔ a ≤ b := Iff.rfl

theorem le_infinity (hx : x ≠ nan) : x ≤ infinity := by
  cases x with
  | nan => exact absurd rfl hx
  | negInfinity | finite | infinity => trivial

theorem ne_nan_of_le (h : x ≤ y) : x ≠ nan ∧ y ≠ nan := by
  constructor
  · rintro rfl
    exact h
  · rintro rfl
    cases x <;> exact h

theorem le_of_le_of_le (hxy : x ≤ y) (hyz : y ≤ z) : x ≤ z := by
  cases x <;> cases y <;> cases z <;>
    first | exact hxy.elim | exact hyz.elim | trivial | exact le_trans (α := ℚ) hxy hyz

theorem min_le_maximum (hx : x ≠ nan) (hmax : maximum ≠ nan) : x.min maximum ≤ maximum := by
  cases x <;> cases maximum <;>
    first | exact absurd rfl hx | exact absurd rfl hmax | trivial | skip
  · exact inf_le_right (α := ℚ)
  all_goals exact le_refl (α := ℚ) _

theorem le_min_of_le (hx : z ≤ x) (hy : z ≤ y) : z ≤ x.min y := by
  cases x <;> cases y <;> cases z <;>
    first | exact hx.elim | exact hy.elim | trivial | exact hx | exact hy | skip
  exact le_inf (α := ℚ) hx hy

theorem min_le_self (hx : x ≠ nan) (hy : y ≠ nan) : x.min y ≤ x := by
  cases x <;> cases y <;> first | exact absurd rfl hx | exact absurd rfl hy | trivial | skip
  · exact inf_le_left (α := ℚ)
  all_goals exact le_refl (α := ℚ) _

theorem doubleRange_pos : 0 < doubleRange := by
  unfold doubleRange
  exact pow_pos two_pos _

theorem ofRat_mono {a b : ℚ} (h : a ≤ b) : ofRat a ≤ ofRat b := by
  unfold ofRat
  by_cases ha : doubleRange ≤ a
  · rw [if_pos ha, if_pos (ha.trans h)]
    trivial
  · rw [if_neg ha]
    by_cases hb : doubleRange ≤ b
    · rw [if_pos hb]
      split_ifs <;> trivial
    · rw [if_neg hb]
      by_cases hlow : b ≤ -doubleRange
      · rw [if_pos hlow, if_pos (h.trans hlow)]
        trivial
      · rw [if_neg hlow]
        split_ifs
        · trivial
        · exact h

/-- A base that grows when it is doubled, or one that nothing doubles too
    often. -/
def Doubles (base : Number) (n : ℕ) : Prop :=
  match base with
  | finite x => 0 < x ∨ x = 0 ∧ n < 1024
  | infinity => True
  | _ => False

theorem timesPow2_mono {n m : ℕ} (h : base.Doubles n) (hm : m ≤ n) :
    base.timesPow2 m ≤ base.timesPow2 n := by
  unfold timesPow2
  cases base with
  | nan | negInfinity => exact h.elim
  | infinity => split_ifs <;> trivial
  | finite x =>
    rcases h with hx | ⟨rfl, hn⟩
    · split_ifs with hm' hn'
      · simp [timesInfinity, hx, LE.le, LessEq]
      · omega
      · simp only [timesInfinity, hx, if_true]
        refine le_infinity fun hnan => ?_
        unfold ofRat at hnan
        split_ifs at hnan
      · refine ofRat_mono (mul_le_mul_of_nonneg_left ?_ hx.le)
        exact pow_le_pow_right₀ one_le_two hm
    · rw [if_neg (by omega), if_neg (by omega)]
      simp only [zero_mul]
      exact ofRat_mono le_rfl

theorem le_timesPow2 {n : ℕ} (h : base.Doubles n) : base ≤ base.timesPow2 n := by
  refine le_of_le_of_le ?_ (timesPow2_mono h (Nat.zero_le n))
  unfold timesPow2
  rw [if_neg (by decide)]
  cases base with
  | nan | negInfinity => exact h.elim
  | infinity => trivial
  | finite x =>
    have hx : 0 ≤ x := by
      rcases h with hx | ⟨rfl, -⟩
      · exact hx.le
      · exact le_rfl
    simp only [pow_zero, mul_one]
    unfold ofRat
    split_ifs
    · trivial
    · have hlarge := doubleRange_pos
      linarith
    · exact le_refl x

/-- **The bounds of the delay.** -/
theorem backoff_bounds {n : ℕ} (h : base.Doubles n) (hmax : base ≤ maximum) :
    base ≤ backoff base maximum n ∧ backoff base maximum n ≤ maximum := by
  have hle := le_timesPow2 h
  exact ⟨le_min_of_le hle hmax, min_le_maximum (ne_nan_of_le hle).2 (ne_nan_of_le hmax).2⟩

/-- **The delay does not shrink.** -/
theorem backoff_mono {n m : ℕ} (h : base.Doubles n) (hmax : base ≤ maximum) (hm : m ≤ n) :
    backoff base maximum m ≤ backoff base maximum n := by
  have hle := timesPow2_mono h hm
  have hnan := (ne_nan_of_le hmax).2
  refine le_min_of_le (le_of_le_of_le ?_ hle) (min_le_maximum (ne_nan_of_le hle).1 hnan)
  exact min_le_self (ne_nan_of_le hle).1 hnan

end

end Number

end Js
