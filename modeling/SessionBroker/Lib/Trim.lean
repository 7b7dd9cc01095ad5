/-
  A list up to its first blank, and one without the blanks at both ends, for any
  notion of a blank.

  * `takeWhile_stop`, `dropWhile_stop`: what is in front of a stop, and what is
    left;
  * `Trimmed`: no blank at either end;
  * `trim`: what is left;
  * `trim_between`: what stands between blanks is found.
-/
import Mathlib.Data.List.DropRight

namespace Trim

variable {α : Type*} {p : α → Bool}

/-- What is in front of the first element that stops. -/
theorem takeWhile_stop {l r : List α} (hl : ∀ c ∈ l, p c = true)
    (hr : ∀ c, r.head? = some c → p c = false) : (l ++ r).takeWhile p = l := by
  rw [List.takeWhile_append_of_pos hl]
  cases r with
  | nil => rw [List.takeWhile_nil, List.append_nil]
  | cons c r => rw [List.takeWhile_cons_of_neg (by simp [hr c rfl]), List.append_nil]

theorem dropWhile_stop {l r : List α} (hl : ∀ c ∈ l, p c = true)
    (hr : ∀ c, r.head? = some c → p c = false) : (l ++ r).dropWhile p = r := by
  rw [List.dropWhile_append_of_pos hl]
  cases r with
  | nil => rfl
  | cons c r => exact List.dropWhile_cons_of_neg (by simp [hr c rfl])

/-- What stops within a list stops in front of anything behind it. -/
theorem takeWhile_append_of_mem {c : α} (hp : p c = false) {l : List α} (hc : c ∈ l) (r : List α) :
    (l ++ r).takeWhile p = l.takeWhile p := by
  rw [List.takeWhile_append, if_neg]
  intro hlen
  have hall := (List.takeWhile_prefix p).eq_of_length hlen
  have := List.takeWhile_eq_self_iff.1 hall c hc
  rw [hp] at this
  cases this

/-- An element that is no blank stops the trimming. -/
theorem dropWhile_append_cons {c : α} (hc : p c = false) (l r : List α) :
    (l ++ c :: r).dropWhile p = l.dropWhile p ++ c :: r := by
  rw [List.dropWhile_append]
  split_ifs with hl
  · rw [List.isEmpty_iff.1 hl, List.dropWhile_cons_of_neg (by simp [hc]), List.nil_append]
  · rfl

theorem rdropWhile_append_cons {c : α} (hc : p c = false) (l r : List α) :
    (l ++ c :: r).rdropWhile p = l ++ c :: r.rdropWhile p := by
  have hreverse : (l ++ c :: r).reverse = r.reverse ++ c :: l.reverse := by simp
  rw [List.rdropWhile, hreverse, dropWhile_append_cons hc, List.rdropWhile]
  simp

theorem rdropWhile_append_of_pos {b : List α} (h : ∀ c ∈ b, p c = true) (l : List α) :
    (l ++ b).rdropWhile p = l.rdropWhile p := by
  rw [List.rdropWhile, List.rdropWhile, List.reverse_append, List.dropWhile_append_of_pos]
  exact fun c hc => h c (List.mem_reverse.1 hc)

/-- No blank at either end. -/
def Trimmed (p : α → Bool) (l : List α) : Prop :=
  (∀ c, l.head? = some c → p c = false) ∧ ∀ c, l.getLast? = some c → p c = false

theorem Trimmed.of_forall {l : List α} (h : ∀ c ∈ l, p c = false) : Trimmed p l :=
  ⟨fun c hc => h c (List.mem_of_head? hc), fun c hc => h c (List.mem_of_getLast? hc)⟩

theorem Trimmed.rdropWhile {l : List α} (h : Trimmed p l) : l.rdropWhile p = l := by
  rw [List.rdropWhile_eq_self_iff]
  intro hne
  simp [h.2 _ (List.getLast?_eq_getLast_of_ne_nil hne)]

/-- Both ends. -/
def trim (p : α → Bool) (l : List α) : List α := (l.dropWhile p).rdropWhile p

theorem trimmed_trim (l : List α) : Trimmed p (trim p l) := by
  constructor
  · intro c hc
    have hhead : (l.dropWhile p).head? = some c := by
      obtain ⟨rest, hrest⟩ := List.rdropWhile_prefix p (l.dropWhile p)
      rw [← hrest, List.head?_append, show ((l.dropWhile p).rdropWhile p).head? = some c from hc]
      rfl
    have hnot := List.head?_dropWhile_not p l
    rwa [hhead] at hnot
  · intro c hc
    have hne : (l.dropWhile p).rdropWhile p ≠ [] := by
      intro hnil
      rw [trim, hnil] at hc
      cases hc
    have hnot := List.rdropWhile_last_not p _ hne
    rw [trim, List.getLast?_eq_some_getLast hne, Option.some_inj] at hc
    rw [hc] at hnot
    simpa using hnot

theorem mem_of_mem_trim {l : List α} {c : α} (h : c ∈ trim p l) : c ∈ l :=
  (List.dropWhile_sublist _).mem ((List.rdropWhile_prefix _ _).sublist.mem h)

/-- What is between blanks. -/
theorem trim_between {a x b : List α} (ha : ∀ c ∈ a, p c = true) (hx : Trimmed p x)
    (hb : ∀ c ∈ b, p c = true) : trim p (a ++ x ++ b) = x := by
  rw [trim, List.append_assoc, List.dropWhile_append_of_pos ha]
  cases x with
  | nil =>
    rw [List.nil_append, List.dropWhile_eq_nil_iff.2 hb]
    rfl
  | cons c rest =>
    rw [List.cons_append, List.dropWhile_cons_of_neg (by simp [hx.1 c rfl]), ← List.cons_append,
      rdropWhile_append_of_pos hb, hx.rdropWhile]

/-- Blanks in front of an element that stays. -/
theorem trim_cons {a : List α} (ha : ∀ c ∈ a, p c = true) {c : α} (hc : p c = false) (rest : List α) :
    trim p (a ++ c :: rest) = c :: rest.rdropWhile p := by
  rw [trim, List.dropWhile_append_of_pos ha, List.dropWhile_cons_of_neg (by simp [hc]),
    ← List.nil_append (c :: rest), rdropWhile_append_cons hc, List.nil_append]

theorem trim_append_blanks {b : List α} (hb : ∀ c ∈ b, p c = true) (l : List α) :
    trim p (l ++ b) = trim p l := by
  unfold trim
  rw [List.dropWhile_append]
  split_ifs with hl
  · rw [List.dropWhile_eq_nil_iff.2 hb, List.isEmpty_iff.1 hl]
  · rw [rdropWhile_append_of_pos hb]

theorem getLast?_rdropWhile_cons {c : α} (hc : p c = false) (l : List α) :
    ∀ d, (c :: l.rdropWhile p).getLast? = some d → p d = false := by
  intro d hd
  have hlast := rdropWhile_append_cons hc [] l
  rw [List.nil_append, List.nil_append] at hlast
  rw [← hlast] at hd
  have hne : (c :: l).rdropWhile p ≠ [] := by
    intro hnil
    rw [hnil] at hd
    cases hd
  have hnot := List.rdropWhile_last_not p (c :: l) hne
  rw [List.getLast?_eq_some_getLast hne, Option.some_inj] at hd
  rw [hd] at hnot
  simpa using hnot

end Trim
