/-
  A map that is written and emptied a key at a time.

  * `held_eq_some_iff`: a key holds what was last put under it, if no event has
    touched it since;
  * `current_iff`: whenever something is put, nothing that is held is stale
    beside it, exactly if whatever had gone stale was touched in between;
  * `trace` collects the events of a run, and `exists_prefix` cuts the run where
    the trace is cut.
-/
import SessionBroker.Lib.Run
import Mathlib.Data.Set.Card
import Mathlib.Logic.Function.Basic

namespace Slots

variable {κ ρ : Type*}

inductive Event (κ ρ : Type*) where
  | put (k : κ) (r : ρ)
  | take (k : κ)
deriving DecidableEq, Repr

namespace Event

def key : Event κ ρ → κ
  | put k _ | take k => k

def put? : Event κ ρ → Option (κ × ρ)
  | put k r => some (k, r)
  | take _ => none

def apply [DecidableEq κ] (m : κ → Option ρ) : Event κ ρ → κ → Option ρ
  | put k r => Function.update m k (some r)
  | take k => Function.update m k none

end Event

/-- What was put, oldest first. -/
def puts (es : List (Event κ ρ)) : List (κ × ρ) := es.filterMap Event.put?

@[simp] theorem puts_append (es es' : List (Event κ ρ)) : puts (es ++ es') = puts es ++ puts es' :=
  List.filterMap_append

theorem mem_puts {es : List (Event κ ρ)} {b : κ × ρ} : b ∈ puts es ↔ .put b.1 b.2 ∈ es := by
  rw [puts, List.mem_filterMap]
  constructor
  · rintro ⟨e, he, hb⟩
    cases e with
    | put k r => cases hb; exact he
    | take k => cases hb
  · exact fun h => ⟨_, h, rfl⟩

/-! ## What is held -/

section
variable [DecidableEq κ] {es : List (Event κ ρ)} {k : κ} {r : ρ}

/-- The map after the events, from an empty one. -/
def held (es : List (Event κ ρ)) : κ → Option ρ := es.foldl Event.apply fun _ => none

@[simp] theorem held_concat (es : List (Event κ ρ)) (e : Event κ ρ) :
    held (es ++ [e]) = e.apply (held es) := by
  simp [held]

@[simp] theorem apply_put (m : κ → Option ρ) (k : κ) (r : ρ) : (Event.put k r).apply m k = some r :=
  Function.update_self ..

@[simp] theorem apply_take (m : κ → Option ρ) (k : κ) :
    (Event.take k : Event κ ρ).apply m k = none :=
  Function.update_self ..

theorem apply_of_ne {m : κ → Option ρ} {e : Event κ ρ} (h : e.key ≠ k) : e.apply m k = m k := by
  cases e <;> exact Function.update_of_ne (Ne.symm h) _ _

theorem held_append_of_untouched {since : List (Event κ ρ)} (h : ∀ e ∈ since, e.key ≠ k) :
    held (es ++ since) k = held es k := by
  induction since using List.reverseRecOn with
  | nil => rw [List.append_nil]
  | append_singleton since e ih =>
    rw [← List.append_assoc, held_concat, apply_of_ne (h e (by simp)),
      ih fun e' he' => h e' (List.mem_append_left _ he')]

/-- **A key holds what was last put there.** -/
theorem held_eq_some_iff : held es k = some r ↔
    ∃ before since, es = before ++ .put k r :: since ∧ ∀ e ∈ since, e.key ≠ k := by
  constructor
  · induction es using List.reverseRecOn with
    | nil => exact fun h => by cases h
    | append_singleton es e ih =>
      intro h
      rw [held_concat] at h
      by_cases hkey : e.key = k
      · cases e with
        | put k' r' =>
          obtain rfl : k' = k := hkey
          rw [apply_put] at h
          cases h
          exact ⟨es, [], rfl, fun _ he => by cases he⟩
        | take k' =>
          obtain rfl : k' = k := hkey
          rw [apply_take] at h
          cases h
      · rw [apply_of_ne hkey] at h
        obtain ⟨before, since, rfl, huntouched⟩ := ih h
        refine ⟨before, since ++ [e], by simp, fun e' he' => ?_⟩
        rcases List.mem_append.1 he' with he' | he'
        · exact huntouched e' he'
        · rwa [List.mem_singleton.1 he']
  · rintro ⟨before, since, rfl, huntouched⟩
    rw [← List.singleton_append, ← List.append_assoc, held_append_of_untouched huntouched, held_concat,
      apply_put]

theorem mem_puts_of_held (h : held es k = some r) : (k, r) ∈ puts es := by
  obtain ⟨before, since, rfl, -⟩ := held_eq_some_iff.1 h
  exact mem_puts.2 (by simp)

/-- No more keys are held than were put, counting those whose value passes. -/
theorem ncard_held_le (p : ρ → Bool) (h : ∀ k r, held es k = some r → p r = true) :
    {k | (held es k).isSome}.ncard ≤ ((puts es).filter fun b => p b.2).length := by
  have hsub : {k | (held es k).isSome} ⊆ ↑(((puts es).filter fun b => p b.2).map (·.1)).toFinset := by
    intro k hk
    obtain ⟨r, hr⟩ := Option.isSome_iff_exists.1 hk
    simp only [List.coe_toFinset, List.mem_map, List.mem_filter, Set.mem_ofPred_eq]
    exact ⟨(k, r), ⟨mem_puts_of_held hr, h k r hr⟩, rfl⟩
  calc {k | (held es k).isSome}.ncard
      ≤ (((puts es).filter fun b => p b.2).map (·.1)).toFinset.card := by
        rw [← Set.ncard_coe_finset]
        exact Set.ncard_le_ncard hsub (Finset.finite_toSet _)
    _ ≤ (((puts es).filter fun b => p b.2).map (·.1)).length := List.toFinset_card_le _
    _ = ((puts es).filter fun b => p b.2).length := List.length_map _

/-! ## Nothing stale -/

/-- As of the last put, nothing held is stale. -/
def Current (stale : ρ → ρ → Prop) (es : List (Event κ ρ)) : Prop :=
  ∀ last ∈ (puts es).getLast?, ∀ k r, held es k = some r → ¬ stale r last.2

/-- **Nothing stale is ever held** past a put iff every value that was stale by
    a put had been touched before it, or is replaced by it. -/
theorem current_iff {stale : ρ → ρ → Prop} (hirr : ∀ r, ¬ stale r r) :
    (∀ before after, es = before ++ after → Current stale before) ↔
      ∀ before k r between k' r' after,
        es = before ++ .put k r :: (between ++ .put k' r' :: after) → stale r r' →
        k' = k ∨ ∃ e ∈ between, e.key = k := by
  constructor
  · intro h before k r between k' r' after he hstale
    by_contra hnot
    rw [not_or, not_exists] at hnot
    have hcut : es = (before ++ .put k r :: (between ++ [.put k' r'])) ++ after := by simp [he]
    have hlast : (k', r') ∈ (puts (before ++ .put k r :: (between ++ [.put k' r']))).getLast? := by
      rw [← List.singleton_append, ← List.append_assoc, ← List.append_assoc, puts_append]
      exact List.getLast?_concat
    refine h _ _ hcut _ hlast k r (held_eq_some_iff.2 ⟨before, _, rfl, fun e hmem => ?_⟩) hstale
    rcases List.mem_append.1 hmem with hmem | hmem
    · exact fun hkey => hnot.2 e ⟨hmem, hkey⟩
    · rw [List.mem_singleton.1 hmem]
      exact hnot.1
  · rintro h before after rfl last hlast k r hheld hstale
    obtain ⟨early, since, rfl, huntouched⟩ := held_eq_some_iff.1 hheld
    -- the last put is this one, or comes after it
    have hputs : puts (early ++ .put k r :: since) = (puts early ++ [(k, r)]) ++ puts since := by
      rw [← List.singleton_append, puts_append, puts_append, List.append_assoc]
      rfl
    rw [hputs] at hlast
    rcases List.eq_nil_or_concat (puts since) with hnil | ⟨init, b, hb⟩
    · rw [hnil, List.append_nil, List.getLast?_concat] at hlast
      cases hlast
      exact hirr r hstale
    · rw [hb, List.concat_eq_append, ← List.append_assoc, List.getLast?_concat] at hlast
      cases hlast
      have hmem : last ∈ puts since := by rw [hb]; simp
      obtain ⟨between, later, rfl⟩ := List.append_of_mem (mem_puts.1 hmem)
      rcases h early k r between last.1 last.2 (later ++ after) (by simp) hstale with hkey | ⟨e, he, hkey⟩
      · exact huntouched (.put last.1 last.2) (by simp) hkey
      · exact huntouched e (by simp [he]) hkey

end

/-! ## The events of a run -/

section
variable {σ α γ : Type*} {event : σ → α → Option γ} {step : σ → α → σ}

/-- What the steps of a run do, where they do something. -/
def trace (event : σ → α → Option γ) (step : σ → α → σ) : σ → List α → List γ
  | _, [] => []
  | s, a :: as => (event s a).toList ++ trace event step (step s a) as

theorem trace_append (s : σ) (as bs : List α) : trace event step s (as ++ bs) =
    trace event step s as ++ trace event step (Runs.run step s as) bs := by
  induction as generalizing s with
  | nil => rfl
  | cons a as ih =>
    rw [List.cons_append, trace, trace, ih, List.append_assoc]
    rfl

@[simp] theorem trace_concat (s : σ) (as : List α) (a : α) : trace event step s (as ++ [a]) =
    trace event step s as ++ (event (Runs.run step s as) a).toList := by
  rw [trace_append, trace, trace, List.append_nil]

/-- A prefix of a trace is the trace of a prefix. -/
theorem exists_prefix {s : σ} {as : List α} {es es' : List γ} (h : trace event step s as = es ++ es') :
    ∃ before after, as = before ++ after ∧ trace event step s before = es := by
  induction as generalizing s es with
  | nil =>
    obtain ⟨rfl, -⟩ := List.append_eq_nil_iff.1 h.symm
    exact ⟨[], [], rfl, rfl⟩
  | cons a as ih =>
    rw [trace] at h
    cases he : event s a with
    | none =>
      rw [he] at h
      obtain ⟨before, after, rfl, hb⟩ := ih h
      exact ⟨a :: before, after, rfl, by rw [trace, he, hb]; rfl⟩
    | some e =>
      rw [he] at h
      cases es with
      | nil => exact ⟨[], a :: as, rfl, rfl⟩
      | cons e' es =>
        obtain ⟨rfl, hrest⟩ := List.cons.inj h
        obtain ⟨before, after, rfl, hb⟩ := ih hrest
        exact ⟨a :: before, after, rfl, by rw [trace, he, hb]; rfl⟩

end

end Slots
