/-
  Runs of a deterministic machine, and logs that only grow.

  * `run step s as` feeds the inputs `as` to `step` one after the other;
    `run_invariant` is its induction rule, with a history-dependent invariant
    and a prefix-closed condition on the inputs, `along_invariant` the one for
    a condition on each step, `run_preserves` the one without a condition;
  * `timed_invariant` is the rule for machines whose inputs carry a clock
    reading that never goes back: the invariant may depend on a time no
    earlier than any reading so far;
  * where a step is a sequence of smaller moves, `run_moves_invariant` and
    `timed_moves_invariant` ask for each move only;
  * `cut_within_step` and `run_cut`: if every step extends a log, a prefix of
    the log of a reachable state was cut within one step.
-/
import Mathlib.Data.List.Induction
import Mathlib.Data.List.Infix
import Mathlib.Logic.Relation
import Mathlib.Order.Lattice

namespace Runs

variable {σ α τ γ : Type*}

/-- The state after the inputs `as`. -/
def run (step : σ → α → σ) (s : σ) (as : List α) : σ := as.foldl step s

section
variable {step : σ → α → σ} {s : σ}

@[simp] theorem run_nil : run step s [] = s := rfl

@[simp] theorem run_concat (as : List α) (a : α) :
    run step s (as ++ [a]) = step (run step s as) a := by
  simp [run]

theorem run_append (as bs : List α) : run step s (as ++ bs) = run step (run step s as) bs := by
  simp [run]

/-- **Invariant rule.** -/
theorem run_invariant {P : List α → Prop} {Inv : List α → σ → Prop}
    (hP : ∀ as a, P (as ++ [a]) → P as) (h₀ : Inv [] s)
    (hs : ∀ as a, P (as ++ [a]) → Inv as (run step s as) →
      Inv (as ++ [a]) (step (run step s as) a)) :
    ∀ as, P as → Inv as (run step s as) := by
  intro as
  induction as using List.reverseRecOn with
  | nil => exact fun _ => h₀
  | append_singleton as a ih =>
    intro h
    rw [run_concat]
    exact hs as a h (ih (hP as a h))

/-! ## Conditions on every step -/

/-- **What every step keeps**, a run keeps. -/
theorem run_preserves {Inv : σ → Prop} (hs : ∀ s a, Inv s → Inv (step s a)) {s : σ} (h₀ : Inv s)
    (as : List α) : Inv (run step s as) := by
  induction as generalizing s with
  | nil => exact h₀
  | cons a as ih => exact ih (hs s a h₀)

/-- A run and one more step, split at a step: at the last one, or before it. -/
theorem concat_eq_split {as before after : List α} {a b : α} :
    as ++ [a] = before ++ b :: after ↔
      (as = before ∧ a = b ∧ after = []) ∨ ∃ rest, as = before ++ b :: rest ∧ after = rest ++ [a] := by
  constructor
  · intro h
    rcases List.eq_nil_or_concat after with rfl | ⟨rest, c, rfl⟩
    · obtain ⟨rfl, hb⟩ := List.append_inj' h rfl
      exact Or.inl ⟨rfl, List.singleton_inj.1 hb, rfl⟩
    · rw [List.concat_eq_append, ← List.cons_append, ← List.append_assoc] at h
      obtain ⟨rfl, hc⟩ := List.append_inj' h rfl
      rw [List.singleton_inj.1 hc]
      exact Or.inr ⟨rest, rfl, List.concat_eq_append⟩
  · rintro (⟨rfl, rfl, rfl⟩ | ⟨rest, rfl, rfl⟩)
    · rfl
    · rw [List.append_assoc, List.cons_append]

/-- What holds of each step and the steps before it, one step later. -/
theorem splits_concat {P : List α → α → Prop} {as : List α} {a : α} :
    (∀ before b after, as ++ [a] = before ++ b :: after → P before b) ↔
      (∀ before b after, as = before ++ b :: after → P before b) ∧ P as a := by
  constructor
  · intro h
    refine ⟨fun before b after heq => h before b (after ++ [a]) ?_, h as a [] rfl⟩
    rw [heq, List.append_assoc, List.cons_append]
  · rintro ⟨h, ha⟩ before b after heq
    obtain ⟨rfl, rfl, -⟩ | ⟨rest, heq, -⟩ := concat_eq_split.1 heq
    · exact ha
    · exact h before b rest heq

/-- **Rule for promises.**  Where, while what is kept holds, a step has `P`
    exactly if it has `Q`, and a step that has `Q` keeps it, the steps of a run
    have the one exactly if they have the other. -/
theorem splits_iff {P Q : List α → α → Prop} {K : List α → Prop} {R : α → Prop}
    (h₀ : K []) (hs : ∀ as a, K as → R a → (P as a ↔ Q as a))
    (hk : ∀ as a, K as → R a → Q as a → K (as ++ [a])) :
    ∀ as, (∀ a ∈ as, R a) → ((∀ before b after, as = before ++ b :: after → P before b) ↔
      ∀ before b after, as = before ++ b :: after → Q before b) := by
  have key : ∀ as, (∀ a ∈ as, R a) →
      ((∀ before b after, as = before ++ b :: after → P before b) ↔
        ∀ before b after, as = before ++ b :: after → Q before b) ∧
      ((∀ before b after, as = before ++ b :: after → Q before b) → K as) := by
    intro as
    induction as using List.reverseRecOn with
    | nil => exact fun _ => ⟨⟨fun _ => by simp, fun _ => by simp⟩, fun _ => h₀⟩
    | append_singleton as a ih =>
      intro hR
      obtain ⟨hiff, hkept⟩ := ih fun b hb => hR b (List.mem_append_left _ hb)
      have ha := hR a (by simp)
      rw [splits_concat, splits_concat, hiff]
      constructor
      · exact and_congr_right fun hQ => hs as a (hkept hQ) ha
      · exact fun hQ => hk as a (hkept hQ.1) ha hQ.2
  exact fun as hR => (key as hR).1

/-- `P` holds of every step of the run. -/
def Along (step : σ → α → σ) (P : σ → α → Prop) : σ → List α → Prop
  | _, [] => True
  | s, a :: as => P s a ∧ Along step P (step s a) as

instance decidableAlong {P : σ → α → Prop} [∀ s a, Decidable (P s a)] :
    ∀ (s : σ) (as : List α), Decidable (Along step P s as)
  | _, [] => inferInstanceAs (Decidable True)
  | s, a :: as => @instDecidableAnd _ _ _ (decidableAlong (step s a) as)

/-- **Invariant rule for runs under a condition.** -/
theorem along_invariant {P : σ → α → Prop} {Inv : σ → Prop}
    (hs : ∀ s a, Inv s → P s a → Inv (step s a)) {s : σ} {as : List α} (h₀ : Inv s)
    (h : Along step P s as) : Inv (run step s as) := by
  induction as generalizing s with
  | nil => exact h₀
  | cons a as ih => exact ih (hs s a h₀ h.1) h.2

/-- Two conditions, the second of them where `q`. -/
theorem Along.and {P Q : σ → α → Prop} {q : Prop} {s : σ} {as : List α} (hP : Along step P s as)
    (hQ : q → Along step Q s as) : Along step (fun s a => P s a ∧ (q → Q s a)) s as := by
  induction as generalizing s with
  | nil => trivial
  | cons a as ih => exact ⟨⟨hP.1, fun hq => (hQ hq).1⟩, ih hP.2 fun hq => (hQ hq).2⟩

theorem along_append {P : σ → α → Prop} {s : σ} {as bs : List α} :
    Along step P s (as ++ bs) ↔ Along step P s as ∧ Along step P (run step s as) bs := by
  induction as generalizing s with
  | nil => simp [Along]
  | cons a as ih => rw [List.cons_append, Along, Along, ih, and_assoc]; rfl

end

/-! ## Clock readings -/

section
variable [LinearOrder τ]

/-- The readings of the inputs never go back. -/
def Nondecreasing (time : α → Option τ) (as : List α) : Prop :=
  (as.filterMap time).Pairwise (· ≤ ·)

/-- `t` is no earlier than any reading. -/
def NotBefore (time : α → Option τ) (as : List α) (t : τ) : Prop :=
  ∀ u ∈ as.filterMap time, u ≤ t

instance {time : α → Option τ} {as : List α} : Decidable (Nondecreasing time as) :=
  inferInstanceAs (Decidable (List.Pairwise _ _))

instance {time : α → Option τ} {as : List α} {t : τ} : Decidable (NotBefore time as t) :=
  inferInstanceAs (Decidable (∀ u ∈ _, _))

theorem Nondecreasing.of_append {time : α → Option τ} {as bs : List α}
    (h : Nondecreasing time (as ++ bs)) : Nondecreasing time as := by
  unfold Nondecreasing at h ⊢
  rw [List.filterMap_append, List.pairwise_append] at h
  exact h.1

theorem Nondecreasing.notBefore {time : α → Option τ} {as : List α} {a : α} {u : τ}
    (h : Nondecreasing time (as ++ [a])) (hu : time a = some u) : NotBefore time as u := by
  unfold Nondecreasing at h
  rw [List.filterMap_append, List.pairwise_append] at h
  exact fun t ht => h.2.2 t ht u (by simp [hu])

theorem exists_notBefore [Nonempty τ] (time : α → Option τ) (as : List α) :
    ∃ t, NotBefore time as t := by
  unfold NotBefore
  induction as.filterMap time with
  | nil =>
    obtain ⟨t⟩ := ‹Nonempty τ›
    exact ⟨t, fun u hu => by cases hu⟩
  | cons v ts ih =>
    obtain ⟨t, ht⟩ := ih
    refine ⟨max v t, fun u hu => ?_⟩
    rcases List.mem_cons.1 hu with rfl | hu
    · exact le_max_left ..
    · exact (ht u hu).trans (le_max_right ..)

theorem NotBefore.of_concat {time : α → Option τ} {as : List α} {a : α} {t : τ}
    (h : NotBefore time (as ++ [a]) t) : NotBefore time as t :=
  fun u hu => h u (by rw [List.filterMap_append]; exact List.mem_append_left _ hu)

theorem NotBefore.last {time : α → Option τ} {as : List α} {a : α} {t u : τ}
    (h : NotBefore time (as ++ [a]) t) (hu : time a = some u) : u ≤ t :=
  h u (by rw [List.filterMap_append]; simp [hu])

/-- **Invariant rule for timed runs.**  A timed input is taken at its own
    reading, an untimed one at any time not before the readings so far. -/
theorem timed_invariant {step : σ → α → σ} {s : σ} {time : α → Option τ} (P : List α → Prop)
    (Inv : List α → τ → σ → Prop) (hP : ∀ as a, P (as ++ [a]) → P as)
    (h₀ : ∀ t, Inv [] t s)
    (hmono : ∀ as t t' s, t ≤ t' → Inv as t s → Inv as t' s)
    (hs : ∀ as a t, P (as ++ [a]) → (∀ u, time a = some u → u = t) →
      Inv as t (run step s as) → Inv (as ++ [a]) t (step (run step s as) a)) :
    ∀ as, P as → Nondecreasing time as → ∀ t, NotBefore time as t → Inv as t (run step s as) := by
  intro as
  induction as using List.reverseRecOn with
  | nil => exact fun _ _ t _ => h₀ t
  | append_singleton as a ih =>
    intro hp hn t ht
    rw [run_concat]
    cases hu : time a with
    | none =>
      exact hs as a t hp (by simp [hu]) (ih (hP as a hp) hn.of_append t ht.of_concat)
    | some u =>
      refine hmono _ u t _ (ht.last hu) (hs as a u hp (by simp [hu]) ?_)
      exact ih (hP as a hp) hn.of_append u (hn.notBefore hu)

end

/-! ## Steps made of moves -/

open Relation

theorem moves_invariant {r : σ → σ → Prop} (Inv : σ → Prop)
    (hr : ∀ s s', Inv s → r s s' → Inv s') {s s' : σ} (h : ReflTransGen r s s') (hi : Inv s) : Inv s' := by
  induction h with
  | refl => exact hi
  | tail _ h ih => exact hr _ _ ih h

/-- **Invariant rule for steps made of moves.** -/
theorem run_moves_invariant {step : σ → α → σ} {s : σ} {move : α → σ → σ → Prop}
    (P : List α → Prop) (Inv : σ → Prop) (hP : ∀ as a, P (as ++ [a]) → P as)
    (hm : ∀ as a, P (as ++ [a]) → ReflTransGen (move a) (run step s as) (step (run step s as) a))
    (h₀ : Inv s) (hs : ∀ as a s s', P (as ++ [a]) → Inv s → move a s s' → Inv s') (as : List α)
    (h : P as) : Inv (run step s as) := by
  induction as using List.reverseRecOn with
  | nil => exact h₀
  | append_singleton as a ih =>
    rw [run_concat]
    exact moves_invariant Inv (fun s s' => hs as a s s' h) (hm as a h) (ih (hP as a h))

/-- **The same, timed.** -/
theorem timed_moves_invariant [LinearOrder τ] {step : σ → α → σ} {s : σ}
    {move : α → σ → σ → Prop} {time : α → Option τ} (P : List α → Prop) (Inv : τ → σ → Prop)
    (hP : ∀ as a, P (as ++ [a]) → P as)
    (hm : ∀ as a, P (as ++ [a]) → ReflTransGen (move a) (run step s as) (step (run step s as) a))
    (h₀ : ∀ t, Inv t s) (hmono : ∀ t t' s, t ≤ t' → Inv t s → Inv t' s)
    (hs : ∀ as a t s s', P (as ++ [a]) → (∀ u, time a = some u → u = t) → Inv t s →
      move a s s' → Inv t s')
    (as : List α) (h : P as) (hn : Nondecreasing time as) (t : τ) (ht : NotBefore time as t) :
    Inv t (run step s as) := by
  have hrun : ∀ as, P as → Nondecreasing time as → ∀ t, NotBefore time as t →
      (fun _ => Inv) as t (run step s as) :=
    timed_invariant P (fun _ => Inv) hP h₀ (fun _ => hmono) fun as a t hp hu hi =>
      moves_invariant (Inv t) (fun s s' hi' h => hs as a t s s' hp hu hi' h) (hm as a hp) hi
  exact hrun as h hn t ht

/-! ## Logs -/

/-- **A log is cut within one step.** -/
theorem cut_within_step {r : σ → σ → Prop} {log : σ → List γ}
    (hlog : ∀ s s', r s s' → log s <+: log s') {s s' : σ} (h : ReflTransGen r s s')
    {p : List γ} (hp : p <+: log s') :
    p <+: log s ∨ ∃ a b, ReflTransGen r s a ∧ r a b ∧ ReflTransGen r b s' ∧
      log a <+: p ∧ p <+: log b := by
  induction h with
  | refl => exact Or.inl hp
  | tail h₁ h₂ ih =>
    rename_i b c
    rcases Nat.le_total p.length (log b).length with hl | hl
    · have hpb : p <+: log b := List.prefix_of_prefix_length_le hp (hlog _ _ h₂) hl
      rcases ih hpb with h | ⟨x, y, hx, hxy, hy, h⟩
      · exact Or.inl h
      · exact Or.inr ⟨x, y, hx, hxy, hy.tail h₂, h⟩
    · exact Or.inr ⟨b, c, h₁, h₂, .refl, List.prefix_of_prefix_length_le (hlog _ _ h₂) hp hl, hp⟩

/-- A log of a run is cut within one input. -/
theorem run_cut {step : σ → α → σ} {s : σ} {log : σ → List γ} (as : List α)
    (hlog : ∀ before a later, as = before ++ a :: later →
      log (run step s before) <+: log (step (run step s before) a))
    {p : List γ} (hp : p <+: log (run step s as)) :
    p <+: log s ∨ ∃ before a later, as = before ++ a :: later ∧
      log (run step s before) <+: p ∧ p <+: log (step (run step s before) a) := by
  induction as using List.reverseRecOn with
  | nil => exact Or.inl hp
  | append_singleton as a ih =>
    rw [run_concat] at hp
    have hlast := hlog as a [] rfl
    rcases Nat.le_total p.length (log (run step s as)).length with hl | hl
    · have hpre := List.prefix_of_prefix_length_le hp hlast hl
      rcases ih (fun before b later h => hlog before b (later ++ [a]) (by simp [h])) hpre with
        h | ⟨before, b, later, rfl, h⟩
      · exact Or.inl h
      · exact Or.inr ⟨before, b, later ++ [a], by simp, h⟩
    · exact Or.inr ⟨as, a, [], by simp, List.prefix_of_prefix_length_le hlast hp hl, hp⟩

end Runs
