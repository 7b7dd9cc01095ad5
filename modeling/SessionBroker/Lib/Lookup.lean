/-
  Association lists, read by key.

  With one entry a key (`Nodup` of the keys) an entry is what its key finds
  (`lookup_of_mem`), and to filter the entries is to filter what is found
  (`lookup_filter`).
-/
import Mathlib.Data.List.Nodup

namespace Lookup

variable {κ β : Type*} {entries : List (κ × β)} {k k' : κ} {b b' : β}

section
variable [BEq κ]

theorem lookup_append (more : List (κ × β)) :
    (entries ++ more).lookup k = (entries.lookup k).or (more.lookup k) := by
  induction entries with
  | nil => rfl
  | cons e entries ih =>
    rw [List.cons_append, List.lookup_cons, List.lookup_cons, ih]
    cases k == e.1 <;> rfl

variable [LawfulBEq κ]

theorem lookup_eq_none : entries.lookup k = none ↔ k ∉ entries.map (·.1) := by
  simp only [List.lookup_eq_none_iff, List.mem_map, not_exists, not_and]
  constructor
  · rintro h e he rfl
    simpa using h e he
  · intro h e he
    simpa using Ne.symm (h e he)

theorem mem_of_lookup (h : entries.lookup k = some b) : (k, b) ∈ entries := by
  obtain ⟨before, after, rfl, -⟩ := List.lookup_eq_some_iff.1 h
  simp

theorem lookup_of_mem (hnodup : (entries.map (·.1)).Nodup) (hmem : (k, b) ∈ entries) :
    entries.lookup k = some b := by
  induction entries with
  | nil => cases hmem
  | cons e entries ih =>
    obtain ⟨hnotin, hnodup⟩ := List.nodup_cons.1 hnodup
    rcases List.mem_cons.1 hmem with rfl | hmem
    · exact List.lookup_cons_self
    · have hne : k ≠ e.1 := by
        rintro rfl
        exact hnotin (List.mem_map.2 ⟨_, hmem, rfl⟩)
      rw [List.lookup_cons, beq_false_of_ne hne]
      exact ih hnodup hmem

theorem lookup_filter (hnodup : (entries.map (·.1)).Nodup) (p : κ × β → Bool) :
    (entries.filter p).lookup k = (entries.lookup k).filter fun b => p (k, b) := by
  have hsub := (List.filter_sublist (p := p) (l := entries)).map Prod.fst
  cases hfound : (entries.filter p).lookup k with
  | some b =>
    obtain ⟨hmem, hp⟩ := List.mem_filter.1 (mem_of_lookup hfound)
    rw [lookup_of_mem hnodup hmem]
    exact (if_pos hp).symm
  | none =>
    cases hold : entries.lookup k with
    | none => rfl
    | some b =>
      have hp : p (k, b) = false := by
        by_contra hp
        have hmem := List.mem_filter.2 ⟨mem_of_lookup hold, eq_true_of_ne_false hp⟩
        rw [lookup_of_mem (hnodup.sublist hsub) hmem] at hfound
        cases hfound
      simp [Option.filter, hp]

end

section
variable [DecidableEq κ]

/-- Another key is not found behind a filter that is about one key. -/
theorem lookup_filter_ne (h : k' ≠ k) :
    (entries.filter fun e => e.1 ≠ k).lookup k' = entries.lookup k' := by
  induction entries with
  | nil => rfl
  | cons e entries ih =>
    obtain ⟨key, b⟩ := e
    by_cases hk : key = k
    · have hne : (k' == key) = false := beq_false_of_ne (hk ▸ h)
      rw [List.filter_cons_of_neg (by simpa using hk), ih, List.lookup_cons, hne]
    · rw [List.filter_cons_of_pos (by simpa using hk), List.lookup_cons, List.lookup_cons, ih]

theorem forall_replace {P : β → Prop} (h : ∀ e ∈ entries, P e.2) (hb : P b) :
    ∀ e ∈ entries.map fun e => if e.1 = k then (e.1, b) else e, P e.2 := by
  intro e he
  obtain ⟨old, hold, rfl⟩ := List.mem_map.1 he
  split_ifs
  · exact hb
  · exact h old hold

/-- The entry of one key gets a new value. -/
theorem lookup_replace :
    (entries.map fun e => if e.1 = k then (e.1, b) else e).lookup k' =
      if k' = k then (entries.lookup k).map fun _ => b else entries.lookup k' := by
  induction entries with
  | nil => simp
  | cons e entries ih =>
    obtain ⟨key, v⟩ := e
    have hfst : (if key = k then (key, b) else (key, v)).1 = key := by split_ifs <;> rfl
    rw [List.map_cons, List.lookup_cons, List.lookup_cons, List.lookup_cons, ih, hfst]
    by_cases hk' : k' = key
    · subst hk'
      by_cases hkey : k' = k
      · subst hkey
        simp
      · simp [hkey]
    · rw [beq_false_of_ne hk']
      by_cases hkey : k' = k
      · subst hkey
        rw [beq_false_of_ne hk']
      · simp [hkey]

theorem map_fst_replace (entries : List (κ × β)) (k : κ) (b : β) :
    (entries.map fun e => if e.1 = k then (e.1, b) else e).map (·.1) = entries.map (·.1) := by
  rw [List.map_map]
  refine List.map_congr_left ?_
  intro e _
  simp only [Function.comp]
  split_ifs <;> rfl

end

end Lookup
