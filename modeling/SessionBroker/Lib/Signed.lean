/-
  The operations of a signed machine type.

  * `Fits`: the values of the type, `half` on each side of zero;
  * `result`: an operation, of whatever kind;
  * `sub`: a difference that does not fit ends a checked build and wraps in
    another;
  * `sub_le_iff`: when no difference is above what was subtracted from;
  * `sub_lt_iff`: when a small difference means that the two are close.
-/
import Mathlib.Data.Int.Order.Basic
import Mathlib.Order.Lattice

namespace Signed

/-- Whether overflow is checked. -/
inductive Build where
  | checked
  | wrapping
deriving DecidableEq, Repr

variable {build : Build} {half : ℕ} {a b d : ℤ}

def Fits (half : ℕ) (x : ℤ) : Prop := -half ≤ x ∧ x < half

instance {x : ℤ} : Decidable (Fits half x) := inferInstanceAs (Decidable (_ ∧ _))

/-- The result of an operation, given the exact one. -/
def result (build : Build) (half : ℕ) (x : ℤ) : Option ℤ :=
  if Fits half x then some x
  else match build with
    | .checked => none
    | .wrapping => some (Int.bmod x (2 * half))

theorem result_of_fits (h : Fits half d) : result build half d = some d := if_pos h

/-- `a - b`. -/
def sub (build : Build) (half : ℕ) (a b : ℤ) : Option ℤ :=
  if Fits half (a - b) then some (a - b)
  else match build with
    | .checked => none
    | .wrapping => some (Int.bmod (a - b) (2 * half))

theorem sub_of_fits (h : Fits half (a - b)) : sub build half a b = some (a - b) := if_pos h

theorem sub_checked_of_not_fits (h : ¬ Fits half (a - b)) : sub .checked half a b = none := if_neg h

theorem sub_eq_none_iff : sub build half a b = none ↔ build = .checked ∧ ¬ Fits half (a - b) := by
  unfold sub
  split_ifs with h
  · simp [h]
  · cases build <;> simp [h]

theorem bmod_of_fits (h : Fits half d) : Int.bmod d (2 * half) = d :=
  Int.bmod_eq_of_le_mul_two (by have := h.1; omega) (by have := h.2; omega)

/-- An unsigned value from `half` on comes out negative. -/
theorem bmod_of_ge {n : ℕ} (h : half ≤ n) (hn : n < 2 * half) :
    Int.bmod n (2 * half) = (n : ℤ) - 2 * half := by
  have hfit : Fits half (n - (2 * half : ℕ)) := by constructor <;> omega
  rw [← Int.sub_bmod_right, bmod_of_fits hfit]
  push_cast
  rfl

/-- Too small a difference comes out large. -/
theorem sub_wrapping_low (ha : Fits half a) (hb : Fits half b) (hlow : a - b < -half) :
    sub .wrapping half a b = some (a - b + 2 * half) := by
  have hfit : Fits half (a - b + (2 * half : ℕ)) := by
    have hlo := ha.1
    have hhi := hb.2
    constructor <;> omega
  unfold sub
  rw [if_neg fun h => by have := h.1; omega]
  dsimp only
  rw [← Int.add_bmod_right (a - b), bmod_of_fits hfit]
  push_cast
  rfl

/-- Too large a difference comes out small. -/
theorem sub_wrapping_high (ha : Fits half a) (hb : Fits half b) (hhigh : half ≤ a - b) :
    sub .wrapping half a b = some (a - b - 2 * half) := by
  have hfit : Fits half (a - b - (2 * half : ℕ)) := by
    have hhi := ha.2
    have hlo := hb.1
    constructor <;> omega
  unfold sub
  rw [if_neg fun h => by have := h.2; omega]
  dsimp only
  rw [← Int.sub_bmod_right (a - b), bmod_of_fits hfit]
  push_cast
  rfl

/-- What is not negative is taken off unless the difference wraps; what is
    negative is added unless it does. -/
theorem sub_le_iff (ha : Fits half a) (hb : Fits half b) :
    (∀ d, sub build half a b = some d → d ≤ a) ↔
      if 0 ≤ b then build = .checked ∨ -half ≤ a - b else half ≤ a - b := by
  have hlo := ha.1
  have hhi := ha.2
  by_cases hfit : Fits half (a - b)
  · have h1 := hfit.1
    have h2 := hfit.2
    simp only [sub_of_fits hfit, Option.some.injEq, forall_eq']
    split_ifs with h0
    · exact ⟨fun _ => Or.inr h1, fun _ => by omega⟩
    · constructor <;> intro h <;> omega
  · cases build with
    | checked =>
      refine iff_of_true (fun d hd => ?_) ?_
      · rw [sub_checked_of_not_fits hfit] at hd
        cases hd
      · split_ifs with h0
        · exact Or.inl rfl
        · by_contra hlt
          exact hfit ⟨by omega, by omega⟩
    | wrapping =>
      rcases lt_or_ge (a - b) (-half) with hlow | hge
      · simp only [sub_wrapping_low ha hb hlow, Option.some.injEq, forall_eq']
        have h2 := hb.2
        rw [if_pos (show 0 ≤ b by omega)]
        refine iff_of_false (by omega) ?_
        rintro (h | h)
        · cases h
        · omega
      · have hhigh : half ≤ a - b := by
          by_contra hlt
          exact hfit ⟨hge, by omega⟩
        simp only [sub_wrapping_high ha hb hhigh, Option.some.injEq, forall_eq']
        have h2 := hb.1
        rw [if_neg (show ¬ 0 ≤ b by omega)]
        exact iff_of_true (by omega) hhigh

/-- What keeps a value and one far from it from looking close: the difference
    does not wrap to a small one, and the second value is not the one ahead. -/
def Close (build : Build) (half : ℕ) (w a b : ℤ) : Prop :=
  if a - b < -half then build = .checked ∨ w ≤ a - b + 2 * half
  else if half ≤ a - b then build = .checked
  else -w < a - b

instance {w : ℤ} : Decidable (Close build half w a b) := by
  unfold Close
  infer_instance

/-- A difference below `w` is one of two values less than `w` apart. -/
theorem sub_lt_iff {w : ℤ} (ha : Fits half a) (hb : Fits half b) (h0 : 0 < w) (hw : w ≤ half) :
    (∀ d, sub build half a b = some d → d < w → -w < a - b ∧ a - b < w) ↔ Close build half w a b := by
  unfold Close
  by_cases hfit : Fits half (a - b)
  · have h1 := hfit.1
    have h2 := hfit.2
    simp only [sub_of_fits hfit, Option.some.injEq, forall_eq']
    rw [if_neg (by omega), if_neg (by omega)]
    constructor
    · intro h
      by_contra hahead
      exact hahead (h (by omega)).1
    · exact fun hahead hlt => ⟨hahead, hlt⟩
  · cases build with
    | checked =>
      simp only [sub_checked_of_not_fits hfit, reduceCtorEq, true_or, false_imp_iff, implies_true,
        true_iff]
      split_ifs with hlow hhigh
      exact absurd ⟨by omega, by omega⟩ hfit
    | wrapping =>
      rcases lt_or_ge (a - b) (-half) with hlow | hge
      · simp only [sub_wrapping_low ha hb hlow, Option.some.injEq, forall_eq', reduceCtorEq, false_or]
        rw [if_pos hlow]
        constructor <;> intro h <;> omega
      · have hhigh : half ≤ a - b := by
          by_contra hlt
          exact hfit ⟨hge, by omega⟩
        simp only [sub_wrapping_high ha hb hhigh, Option.some.injEq, forall_eq', reduceCtorEq]
        rw [if_neg (by omega), if_pos hhigh, iff_false]
        intro h
        have hha := ha.2
        have hhb := hb.1
        have := h (by omega)
        omega

end Signed
