/-
  Tables as the rows their events brought, each as the later events left it.

  * `rows upd born es`: every event updates the rows that are there and brings
    rows of its own;
  * `mem_rows`: the rows there are those that some event brought, each updated
    by the events after it;
  * `after_eq` and `after_iff`: what the events leave alone of a row, and what
    they can only spoil.
-/
import SessionBroker.Lib.Run

namespace Rows

variable {α ρ : Type*}

/-- A row after events. -/
def after (upd : α → ρ → ρ) (r : ρ) (es : List α) : ρ := es.foldl (fun r e => upd e r) r

/-- The table after events. -/
def rows (upd : α → ρ → ρ) (born : α → List ρ) (es : List α) : List ρ :=
  es.foldl (fun t e => t.map (upd e) ++ born e) []

section
variable {upd : α → ρ → ρ} {born : α → List ρ}

@[simp] theorem after_nil (r : ρ) : after upd r [] = r := rfl

@[simp] theorem after_concat (r : ρ) (es : List α) (e : α) :
    after upd r (es ++ [e]) = upd e (after upd r es) := by
  simp [after]

@[simp] theorem rows_nil : rows upd born [] = [] := rfl

@[simp] theorem rows_concat (es : List α) (e : α) :
    rows upd born (es ++ [e]) = (rows upd born es).map (upd e) ++ born e := by
  simp [rows]

/-- What no event touches. -/
theorem after_eq {β : Type*} {f : ρ → β} (hf : ∀ e r, f (upd e r) = f r) (r : ρ) (es : List α) :
    f (after upd r es) = f r := by
  induction es using List.reverseRecOn with
  | nil => rfl
  | append_singleton es e ih => rw [after_concat, hf, ih]

/-- **The rows of a table.** -/
theorem mem_rows {es : List α} {r : ρ} : r ∈ rows upd born es ↔
    ∃ before e later r₀, es = before ++ e :: later ∧ r₀ ∈ born e ∧ r = after upd r₀ later := by
  induction es using List.reverseRecOn generalizing r with
  | nil =>
    constructor
    · intro h
      cases h
    · rintro ⟨before, e, later, r₀, h, -⟩
      simp at h
  | append_singleton es e ih =>
    rw [rows_concat, List.mem_append, List.mem_map]
    constructor
    · rintro (⟨r', hr', rfl⟩ | hr)
      · obtain ⟨before, e', later, r₀, rfl, hborn, rfl⟩ := ih.1 hr'
        exact ⟨before, e', later ++ [e], r₀, by simp, hborn, (after_concat ..).symm⟩
      · exact ⟨es, e, [], r, rfl, hr, rfl⟩
    · rintro ⟨before, e', later, r₀, hes, hborn, rfl⟩
      obtain ⟨rfl, rfl, rfl⟩ | ⟨later, rfl, rfl⟩ := Runs.concat_eq_split.1 hes
      · exact Or.inr hborn
      · rw [after_concat]
        exact Or.inl ⟨_, ih.2 ⟨before, e', later, r₀, rfl, hborn, rfl⟩, rfl⟩

/-- A test that an event either spoils or leaves as it was holds at the end iff
    it held at first and no event spoiled it. -/
theorem after_iff {p : ρ → Prop} {spoils : α → ρ → Prop}
    (hstep : ∀ e r, p (upd e r) ↔ p r ∧ ¬spoils e r) (hsame : ∀ e e' r, spoils e (upd e' r) ↔ spoils e r)
    (r : ρ) (es : List α) : p (after upd r es) ↔ p r ∧ ∀ e ∈ es, ¬spoils e r := by
  have hkeep : ∀ e es, spoils e (after upd r es) = spoils e r := fun e es =>
    after_eq (fun e' r => propext (hsame e e' r)) r es
  induction es using List.reverseRecOn with
  | nil => simp
  | append_singleton es e ih =>
    rw [after_concat, hstep, hkeep, iff_congr (and_congr ih Iff.rfl) Iff.rfl]
    simp only [List.mem_append, List.mem_singleton]
    constructor
    · rintro ⟨⟨hp, hes⟩, he⟩
      refine ⟨hp, ?_⟩
      rintro e' (he' | rfl)
      · exact hes e' he'
      · exact he
    · rintro ⟨hp, h⟩
      exact ⟨⟨hp, fun e' he' => h e' (Or.inl he')⟩, h e (Or.inr rfl)⟩

end

end Rows
