/-
  Tables as lists of rows in insertion order, and the two kinds of constraint a
  schema declares on them.

  * `insertRow` refuses a row whose key is taken, `updateWhere` and
    `deleteWhere` are the statements with a `WHERE` clause;
  * `UniqueOn` (a primary key or a unique column) and `Refs` (a foreign key)
    survive the statements that respect them.
-/
import Mathlib.Data.List.Basic
import Mathlib.Data.List.Nodup

namespace Table

variable {ρ π κ : Type*}

/-! ## Statements -/

/-- `INSERT`: `none` if a row has the key already. -/
def insertRow [DecidableEq κ] (key : ρ → κ) (t : List ρ) (r : ρ) : Option (List ρ) :=
  if t.any fun r' => key r' = key r then none else some (t ++ [r])

/-- `UPDATE … WHERE p`. -/
def updateWhere (p : ρ → Bool) (f : ρ → ρ) (t : List ρ) : List ρ :=
  t.map fun r => if p r then f r else r

/-- `DELETE … WHERE p`. -/
def deleteWhere (p : ρ → Bool) (t : List ρ) : List ρ := t.filter fun r => !p r

section
variable [DecidableEq κ] {key : ρ → κ} {t t' : List ρ} {r : ρ}

theorem insertRow_eq_some :
    insertRow key t r = some t' ↔ (∀ r' ∈ t, key r' ≠ key r) ∧ t' = t ++ [r] := by
  unfold insertRow
  split_ifs with h
  · simp only [List.any_eq_true, decide_eq_true_eq] at h
    obtain ⟨r', hr, hk⟩ := h
    exact ⟨fun h' => by simp at h', fun h' => absurd hk (h'.1 r' hr)⟩
  · simp only [List.any_eq_true, decide_eq_true_eq, not_exists, not_and] at h
    exact ⟨fun h' => ⟨h, (Option.some.inj h').symm⟩, fun h' => by rw [h'.2]⟩

theorem insertRow_isSome : (insertRow key t r).isSome ↔ ∀ r' ∈ t, key r' ≠ key r := by
  rw [Option.isSome_iff_exists]
  simp [insertRow_eq_some]

end

@[simp] theorem mem_updateWhere {p : ρ → Bool} {f : ρ → ρ} {t : List ρ} {r : ρ} :
    r ∈ updateWhere p f t ↔ ∃ r' ∈ t, (if p r' then f r' else r') = r := by
  simp [updateWhere]

@[simp] theorem mem_deleteWhere {p : ρ → Bool} {t : List ρ} {r : ρ} :
    r ∈ deleteWhere p t ↔ r ∈ t ∧ p r = false := by
  simp [deleteWhere]

/-- An update no row answers to changes nothing. -/
theorem updateWhere_of_none {p : ρ → Bool} {f : ρ → ρ} {t : List ρ} (h : t.any p = false) :
    updateWhere p f t = t := by
  rw [List.any_eq_false] at h
  calc updateWhere p f t = t.map id := List.map_congr_left fun r hr => by simp [h r hr]
    _ = t := List.map_id t

/-- An update some row answers to leaves that row changed. -/
theorem exists_updated {p : ρ → Bool} {f : ρ → ρ} {t : List ρ} (h : t.any p = true) :
    ∃ r ∈ t, p r = true ∧ f r ∈ updateWhere p f t := by
  obtain ⟨r, hr, hp⟩ := List.any_eq_true.1 h
  exact ⟨r, hr, hp, mem_updateWhere.2 ⟨r, hr, by rw [if_pos hp]⟩⟩

/-! ## Keys -/

/-- No two rows have the same key. -/
def UniqueOn (key : ρ → κ) (t : List ρ) : Prop := (t.map key).Nodup

section
variable {key : ρ → κ} {t t' : List ρ}

theorem UniqueOn.eq_of_key (h : UniqueOn key t) {r r' : ρ} (hr : r ∈ t) (hr' : r' ∈ t)
    (hk : key r = key r') : r = r' :=
  List.inj_on_of_nodup_map h hr hr' hk

/-- The row of a key is found. -/
theorem UniqueOn.find?_eq [DecidableEq κ] (h : UniqueOn key t) {r : ρ} (hr : r ∈ t) :
    (t.find? fun r' => key r' = key r) = some r := by
  cases hf : t.find? fun r' => key r' = key r with
  | none =>
    rw [List.find?_eq_none] at hf
    exact absurd (decide_eq_true rfl) (hf r hr)
  | some r' =>
    have hk : key r' = key r := by simpa using List.find?_some hf
    rw [h.eq_of_key (List.mem_of_find?_eq_some hf) hr hk]

/-- The row of a key after an update that leaves keys alone. -/
theorem find?_updateWhere [DecidableEq κ] {p : ρ → Bool} {f : ρ → ρ} (hf : ∀ r, key (f r) = key r)
    (t : List ρ) (k : κ) : ((updateWhere p f t).find? fun r => key r = k) =
      (t.find? fun r => key r = k).map fun r => if p r then f r else r := by
  unfold updateWhere
  rw [List.find?_map]
  congr 2
  funext r
  have hk : key (if p r then f r else r) = key r := by split_ifs <;> simp [hf]
  simp [hk]

theorem UniqueOn.append {r : ρ} (h : UniqueOn key t) (hr : ∀ r' ∈ t, key r' ≠ key r) :
    UniqueOn key (t ++ [r]) := by
  rw [UniqueOn, List.map_append, List.nodup_append]
  refine ⟨h, by simp, ?_⟩
  rintro _ hk _ hk' rfl
  obtain ⟨r', hr', hk⟩ := List.mem_map.1 hk
  simp only [List.map_cons, List.map_nil, List.mem_singleton] at hk'
  exact hr r' hr' (hk.trans hk')

theorem UniqueOn.insertRow [DecidableEq κ] {r : ρ} (h : UniqueOn key t)
    (hi : Table.insertRow key t r = some t') : UniqueOn key t' := by
  obtain ⟨hr, rfl⟩ := insertRow_eq_some.1 hi
  exact h.append hr

/-- A change in place that leaves the key alone. -/
theorem UniqueOn.map {f : ρ → ρ} (h : UniqueOn key t) (hf : ∀ r, key (f r) = key r) :
    UniqueOn key (t.map f) := by
  rw [UniqueOn, List.map_map]
  exact (List.map_congr_left fun r _ => (hf r).symm) ▸ h

theorem UniqueOn.updateWhere {p : ρ → Bool} {f : ρ → ρ} (h : UniqueOn key t)
    (hf : ∀ r, key (f r) = key r) : UniqueOn key (updateWhere p f t) :=
  h.map fun r => by split_ifs <;> simp [hf]

theorem UniqueOn.filter (h : UniqueOn key t) (p : ρ → Bool) : UniqueOn key (t.filter p) :=
  h.sublist (List.filter_sublist.map key)

/-- A loop over rows that were read before, with an `UPDATE` of each by its key,
    changes each of them once. -/
theorem UniqueOn.foldl_updateWhere [DecidableEq κ] {g : ρ → ρ → ρ}
    (hg : ∀ row r, key (g row r) = key r) {rows : List ρ} (hrows : UniqueOn key rows)
    (h : UniqueOn key t) (hmem : ∀ row ∈ rows, row ∈ t) :
    (rows.foldl (fun t row => Table.updateWhere (fun r => key r = key row) (g row) t) t) =
      t.map fun r => if key r ∈ rows.map key then g r r else r := by
  induction rows generalizing t with
  | nil => simp
  | cons row rows ih =>
    obtain ⟨hnew, hrows⟩ := List.nodup_cons.1 hrows
    have hrest : ∀ row' ∈ rows, row' ∈ Table.updateWhere (fun r => key r = key row) (g row) t := by
      intro row' hrow'
      have hne : key row' ≠ key row := fun hk => hnew (hk ▸ List.mem_map_of_mem hrow')
      exact mem_updateWhere.2 ⟨row', hmem row' (List.mem_cons_of_mem _ hrow'), by simp [hne]⟩
    rw [List.foldl_cons, ih hrows (h.updateWhere (hg row)) hrest, Table.updateWhere, List.map_map]
    refine List.map_congr_left fun r hr => ?_
    by_cases hk : key r = key row
    · obtain rfl := h.eq_of_key hr (hmem row List.mem_cons_self) hk
      rw [Function.comp_apply, if_pos (decide_eq_true rfl), hg, if_neg hnew,
        if_pos (List.mem_map_of_mem List.mem_cons_self)]
    · simp [hk]

theorem UniqueOn.deleteWhere {p : ρ → Bool} (h : UniqueOn key t) : UniqueOn key (deleteWhere p t) :=
  h.sublist (List.filter_sublist.map key)

end

/-! ## References -/

/-- Every row of `t` refers to a row of `parents`. -/
def Refs (fk : ρ → κ) (key : π → κ) (t : List ρ) (parents : List π) : Prop :=
  ∀ r ∈ t, ∃ p ∈ parents, key p = fk r

section
variable {fk : ρ → κ} {key : π → κ} {t : List ρ} {parents : List π}

theorem Refs.append_child {r : ρ} (h : Refs fk key t parents) (hr : ∃ p ∈ parents, key p = fk r) :
    Refs fk key (t ++ [r]) parents := by
  intro r' hr'
  rcases List.mem_append.1 hr' with hr' | hr'
  · exact h r' hr'
  · rwa [List.mem_singleton.1 hr']

theorem Refs.map_child {f : ρ → ρ} (h : Refs fk key t parents) (hf : ∀ r, fk (f r) = fk r) :
    Refs fk key (t.map f) parents := by
  intro r hr
  obtain ⟨r₀, hr₀, rfl⟩ := List.mem_map.1 hr
  obtain ⟨q, hq, hk⟩ := h r₀ hr₀
  exact ⟨q, hq, hk.trans (hf r₀).symm⟩

theorem Refs.update_child {p : ρ → Bool} {f : ρ → ρ} (h : Refs fk key t parents)
    (hf : ∀ r, fk (f r) = fk r) : Refs fk key (updateWhere p f t) parents :=
  h.map_child fun r => by split_ifs <;> simp [hf]

theorem Refs.append_parent (h : Refs fk key t parents) (new : List π) :
    Refs fk key t (parents ++ new) := by
  intro r hr
  obtain ⟨p, hp, hk⟩ := h r hr
  exact ⟨p, List.mem_append_left _ hp, hk⟩

theorem Refs.map_parent {f : π → π} (h : Refs fk key t parents) (hf : ∀ q, key (f q) = key q) :
    Refs fk key t (parents.map f) := by
  intro r hr
  obtain ⟨q, hq, hk⟩ := h r hr
  exact ⟨f q, List.mem_map_of_mem hq, (hf q).trans hk⟩

theorem Refs.update_parent {p : π → Bool} {f : π → π} (h : Refs fk key t parents)
    (hf : ∀ q, key (f q) = key q) : Refs fk key t (updateWhere p f parents) :=
  h.map_parent fun q => by split_ifs <;> simp [hf]

end

end Table
