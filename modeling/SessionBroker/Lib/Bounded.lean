/-
  Bounded memories and windows of a list.

  * `keepLast n` is what a queue trimmed to `n` elements still holds, and
    `overflow n` what trimming took out: trimming after every push or once at
    the end comes to the same;
  * filtering by a predicate that, along the list, once it holds keeps holding
    is dropping a prefix (`filter_eq_drop`).
-/
import Mathlib.Data.List.Basic
import Mathlib.Data.List.Count

namespace Bounded

variable {α β : Type*}

/-- The last `n` elements. -/
def keepLast (n : ℕ) (l : List α) : List α := l.drop (l.length - n)

/-- The elements before the last `n`. -/
def overflow (n : ℕ) (l : List α) : List α := l.take (l.length - n)

@[simp] theorem overflow_append_keepLast (n : ℕ) (l : List α) :
    overflow n l ++ keepLast n l = l := List.take_append_drop ..

@[simp] theorem keepLast_nil (n : ℕ) : keepLast n ([] : List α) = [] := by simp [keepLast]

@[simp] theorem overflow_nil (n : ℕ) : overflow n ([] : List α) = [] := by simp [overflow]

theorem length_keepLast_le (n : ℕ) (l : List α) : (keepLast n l).length ≤ n := by
  simp only [keepLast, List.length_drop]; omega

theorem keepLast_of_length_le {n : ℕ} {l : List α} (h : l.length ≤ n) : keepLast n l = l := by
  simp [keepLast, Nat.sub_eq_zero_of_le h]

theorem overflow_of_length_le {n : ℕ} {l : List α} (h : l.length ≤ n) : overflow n l = [] := by
  simp [overflow, Nat.sub_eq_zero_of_le h]

theorem overflow_cons {n : ℕ} {a : α} {l : List α} (h : n < (a :: l).length) :
    overflow n (a :: l) = a :: overflow n l := by
  simp only [List.length_cons] at h
  simp [overflow, show l.length + 1 - n = l.length - n + 1 by omega]

theorem keepLast_cons {n : ℕ} {a : α} {l : List α} (h : n < (a :: l).length) :
    keepLast n (a :: l) = keepLast n l := by
  simp only [List.length_cons] at h
  simp [keepLast, show l.length + 1 - n = l.length - n + 1 by omega]

/-- Trimming twice is trimming once. -/
theorem keepLast_append (n : ℕ) (l l' : List α) :
    keepLast n (keepLast n l ++ l') = keepLast n (l ++ l') := by
  rcases Nat.le_total l.length n with h | h
  · rw [keepLast_of_length_le h]
  · simp only [keepLast, List.length_append, List.length_drop, List.drop_append, List.drop_drop]
    congr 2 <;> omega

theorem overflow_append (n : ℕ) (l l' : List α) :
    overflow n l ++ overflow n (keepLast n l ++ l') = overflow n (l ++ l') := by
  have h₁ := overflow_append_keepLast n (keepLast n l ++ l')
  rw [keepLast_append] at h₁
  have h₂ : overflow n l ++ (overflow n (keepLast n l ++ l') ++ keepLast n (l ++ l')) =
      overflow n (l ++ l') ++ keepLast n (l ++ l') := by
    rw [h₁, ← List.append_assoc, overflow_append_keepLast, overflow_append_keepLast]
  rw [← List.append_assoc] at h₂
  exact List.append_cancel_right h₂

/-- A positive bound keeps the last element. -/
theorem keepLast_concat {n : ℕ} (h : 0 < n) (l : List α) (a : α) :
    keepLast n (l ++ [a]) = keepLast (n - 1) l ++ [a] := by
  simp only [keepLast, List.length_append, List.length_singleton]
  rw [show l.length + 1 - n = l.length - (n - 1) by omega,
    List.drop_append_of_le_length (Nat.sub_le ..)]

/-- What comes last is kept if there is room for it. -/
theorem keepLast_append_of_le {n : ℕ} (l : List α) {l' : List α} (h : l'.length ≤ n) :
    keepLast n (l ++ l') = keepLast (n - l'.length) l ++ l' := by
  simp only [keepLast, List.length_append]
  rw [show l.length + l'.length - n = l.length - (n - l'.length) by omega,
    List.drop_append_of_le_length (by omega)]

theorem keepLast_sublist (n : ℕ) (l : List α) : (keepLast n l).Sublist l := List.drop_sublist ..

/-- Along a list where `p` keeps holding once it holds, the elements with `p`
    are a suffix. -/
theorem filter_eq_drop {p : α → Bool} {l : List α} (h : l.Pairwise fun a b => p a → p b) :
    l.filter p = l.drop (l.countP fun a => !p a) := by
  induction l with
  | nil => rfl
  | cons a l ih =>
    rw [List.pairwise_cons] at h
    by_cases ha : p a
    · have hall : ∀ b ∈ l, p b := fun b hb => h.1 b hb ha
      have h0 : l.countP (fun b => !p b) = 0 := by
        rw [List.countP_eq_zero]; intro b hb; simp [hall b hb]
      rw [List.filter_eq_self.2 (by simpa [ha] using hall), List.countP_cons, h0]
      simp [ha]
    · simp [ha, ih h.2]

theorem filter_not_eq_take {p : α → Bool} {l : List α} (h : l.Pairwise fun a b => p a → p b) :
    (l.filter fun a => !p a) = l.take (l.countP fun a => !p a) := by
  induction l with
  | nil => rfl
  | cons a l ih =>
    rw [List.pairwise_cons] at h
    by_cases ha : p a
    · have hall : ∀ b ∈ l, p b := fun b hb => h.1 b hb ha
      have h0 : l.countP (fun b => !p b) = 0 := by
        rw [List.countP_eq_zero]; intro b hb; simp [hall b hb]
      rw [List.countP_cons, h0, List.filter_eq_nil_iff.2 (by simpa [ha] using hall)]
      simp [ha]
    · simp [ha, ih h.2]

end Bounded
