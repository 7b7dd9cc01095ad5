/-
  Logs that several writers append to.

  * `Reordered conflict as bs`: `bs` is `as` with neighbours exchanged that are
    not in conflict;
  * `Reordered.front`: what is in conflict with nothing before it may come
    first;
  * `foldl_eq`: where commands that are not in conflict commute, both logs come
    to the same.
-/
import Mathlib.Data.List.Perm.Basic

namespace Logs

variable {α σ : Type*} {conflict : α → α → Prop} {as bs cs : List α}

inductive Reordered (conflict : α → α → Prop) : List α → List α → Prop
  | refl (as : List α) : Reordered conflict as as
  | cons (a : α) {as bs : List α} (h : Reordered conflict as bs) :
      Reordered conflict (a :: as) (a :: bs)
  | swap {a b : α} (h : ¬conflict a b) (as : List α) :
      Reordered conflict (a :: b :: as) (b :: a :: as)
  | trans {as bs cs : List α} (h : Reordered conflict as bs) (h' : Reordered conflict bs cs) :
      Reordered conflict as cs

namespace Reordered

theorem perm (h : Reordered conflict as bs) : as.Perm bs := by
  induction h with
  | refl as => exact .refl as
  | cons a _ ih => exact ih.cons a
  | swap _ as => exact .swap _ _ as
  | trans _ _ ih ih' => exact ih.trans ih'

theorem append_left (h : Reordered conflict as bs) (before : List α) :
    Reordered conflict (before ++ as) (before ++ bs) := by
  induction before with
  | nil => exact h
  | cons a before ih => exact ih.cons a

theorem append_right (h : Reordered conflict as bs) (after : List α) :
    Reordered conflict (as ++ after) (bs ++ after) := by
  induction h with
  | refl as => exact .refl _
  | cons a _ ih => exact ih.cons a
  | swap h as => exact .swap h _
  | trans _ _ ih ih' => exact ih.trans ih'

/-- What is in conflict with nothing before it may come first. -/
theorem front {b : α} (h : ∀ a ∈ as, ¬conflict a b) (after : List α) :
    Reordered conflict (as ++ b :: after) (b :: (as ++ after)) := by
  induction as with
  | nil => exact .refl _
  | cons a as ih =>
    have hrest := ih fun a' ha' => h a' (List.mem_cons_of_mem _ ha')
    exact (hrest.cons a).trans (.swap (h a List.mem_cons_self) _)

/-- **Both logs come to the same.** -/
theorem foldl_eq {step : σ → α → σ}
    (hstep : ∀ a b, ¬conflict a b → ∀ s, step (step s a) b = step (step s b) a)
    (h : Reordered conflict as bs) (s : σ) : as.foldl step s = bs.foldl step s := by
  induction h generalizing s with
  | refl as => rfl
  | cons a _ ih => exact ih _
  | swap h as => rw [List.foldl_cons, List.foldl_cons, hstep _ _ h, List.foldl_cons, List.foldl_cons]
  | trans _ _ ih ih' => rw [ih, ih']

end Reordered

end Logs
