/-
  Conservation along a run: what was given, what is held, and what a step loses.

  * `losses loss step s as` adds up what the steps of a run lose;
  * `given_eq_held`: if every step keeps `given = held + lost`, so does a run;
  * `losses_eq_zero`: nothing is lost iff no step loses, so that a run's books
    are exact iff each of its steps' are.
-/
import SessionBroker.Lib.Run

namespace Ledger

open Runs

variable {σ α : Type*} {step : σ → α → σ} {loss : σ → α → ℕ} {s : σ}

/-- What the steps of a run lose together. -/
def losses (loss : σ → α → ℕ) (step : σ → α → σ) : σ → List α → ℕ
  | _, [] => 0
  | s, a :: as => loss s a + losses loss step (step s a) as

theorem losses_append (as bs : List α) : losses loss step s (as ++ bs) =
    losses loss step s as + losses loss step (run step s as) bs := by
  induction as generalizing s with
  | nil => simp [losses]
  | cons a as ih =>
    rw [List.cons_append, losses, losses, ih]
    exact (Nat.add_assoc ..).symm

@[simp] theorem losses_concat (as : List α) (a : α) : losses loss step s (as ++ [a]) =
    losses loss step s as + loss (run step s as) a := by
  simp [losses_append, losses]

/-- **Nothing is lost iff no step loses.** -/
theorem losses_eq_zero {as : List α} : losses loss step s as = 0 ↔
    ∀ before a after, as = before ++ a :: after → loss (run step s before) a = 0 := by
  induction as using List.reverseRecOn with
  | nil => simp [losses]
  | append_singleton as b ih =>
    rw [losses_concat, Nat.add_eq_zero_iff, ih]
    exact (splits_concat (P := fun before a => loss (run step s before) a = 0)).symm

/-- **The books of a run.** -/
theorem given_eq_held (Inv : σ → Prop) (given held : σ → ℕ) (hs : Inv s) (h₀ : given s = held s)
    (hinv : ∀ s a, Inv s → Inv (step s a))
    (hstep : ∀ s a, Inv s →
      given (step s a) + held s = given s + held (step s a) + loss s a) (as : List α) :
    Inv (run step s as) ∧
      given (run step s as) = held (run step s as) + losses loss step s as := by
  induction as using List.reverseRecOn with
  | nil => exact ⟨hs, h₀⟩
  | append_singleton as a ih =>
    obtain ⟨hi, hg⟩ := ih
    rw [run_concat, losses_concat]
    refine ⟨hinv _ a hi, ?_⟩
    have := hstep _ a hi
    omega

end Ledger
