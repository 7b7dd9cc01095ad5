/-
  Maps as tables whose rows carry their own key, no key twice.

  * `insert` takes the place of a row of the same key; `remove` and `retain`
    take rows away;
  * `evict` makes room: the row that comes first in the order of `age` goes,
    until fewer than `limit` are left;
  * `mem_evict_iff`: a map within its limit loses a row only where it is full
    and no other row comes before it.
-/
import SessionBroker.Lib.Table
import Mathlib.Data.List.MinMax

namespace Table

variable {ρ κ α : Type*}

structure Keyed (key : ρ → κ) where
  rows : List ρ
  unique : UniqueOn key rows

namespace Keyed

variable {key : ρ → κ} {m : Keyed key} {r r' : ρ}

def empty : Keyed key := ⟨[], List.nodup_nil⟩

def retain (p : ρ → Bool) (m : Keyed key) : Keyed key :=
  ⟨deleteWhere (fun r => !p r) m.rows, m.unique.deleteWhere⟩

theorem eq_of_key (hr : r ∈ m.rows) (hr' : r' ∈ m.rows) (hk : key r = key r') : r = r' :=
  m.unique.eq_of_key hr hr' hk

@[simp] theorem mem_retain {p : ρ → Bool} : r ∈ (m.retain p).rows ↔ r ∈ m.rows ∧ p r = true := by
  simp [retain]

theorem retain_eq_self {p : ρ → Bool} (h : ∀ r ∈ m.rows, p r = true) : m.retain p = m := by
  obtain ⟨rows, unique⟩ := m
  simp only [retain, deleteWhere, mk.injEq]
  exact List.filter_eq_self.2 fun r hr => by simpa using h r hr

theorem length_retain_le (p : ρ → Bool) (m : Keyed key) : (m.retain p).rows.length ≤ m.rows.length :=
  List.length_filter_le ..

section
variable [DecidableEq κ] {k : κ}

def find? (m : Keyed key) (k : κ) : Option ρ := m.rows.find? fun r => key r = k

def contains (m : Keyed key) (k : κ) : Bool := m.rows.any fun r => key r = k

def remove (m : Keyed key) (k : κ) : Keyed key := m.retain fun r => key r ≠ k

def insert (m : Keyed key) (r : ρ) : Keyed key where
  rows := (m.remove (key r)).rows ++ [r]
  unique := (m.remove (key r)).unique.append fun r' hr' => by simpa using (mem_retain.1 hr').2

@[simp] theorem mem_remove : r ∈ (m.remove k).rows ↔ r ∈ m.rows ∧ key r ≠ k := by
  simp [remove]

@[simp] theorem mem_insert : r' ∈ (m.insert r).rows ↔ (r' ∈ m.rows ∧ key r' ≠ key r) ∨ r' = r := by
  simp [insert]

theorem contains_iff : m.contains k = true ↔ ∃ r ∈ m.rows, key r = k := by
  simp [contains]

theorem find?_some (h : m.find? k = some r) : r ∈ m.rows ∧ key r = k :=
  ⟨List.mem_of_find?_eq_some h, by simpa using List.find?_some h⟩

/-- A new key goes to the end. -/
theorem insert_rows (h : ∀ r' ∈ m.rows, key r' ≠ key r) : (m.insert r).rows = m.rows ++ [r] := by
  have hsame : m.remove (key r) = m := retain_eq_self fun r' hr' => by simpa using h r' hr'
  exact congrArg (fun m => m.rows ++ [r]) hsame

theorem length_insert_le (m : Keyed key) (r : ρ) :
    (m.insert r).rows.length ≤ m.rows.length + 1 := by
  have hle := length_retain_le (fun r' => key r' ≠ key r) m
  simp only [insert, List.length_append, List.length_singleton]
  exact Nat.succ_le_succ hle

theorem length_remove_lt (hr : r ∈ m.rows) :
    (m.remove (key r)).rows.length < m.rows.length := by
  refine List.length_filter_lt_length_iff_exists.2 ⟨r, hr, ?_⟩
  simp

end

/-! ## Making room -/

section
variable [DecidableEq κ] [LinearOrder α]

/-- Rows go until fewer than `limit` are left, `fuel` of them at most. -/
def evict (limit : ℕ) (age : ρ → α) : ℕ → Keyed key → Keyed key
  | 0, m => m
  | fuel + 1, m =>
    if limit ≤ m.rows.length then
      match m.rows.argmin age with
      | none => m
      | some r => evict limit age fuel (m.remove (key r))
    else m

variable {limit fuel : ℕ} {age : ρ → α}

theorem evict_of_lt (h : m.rows.length < limit) : evict limit age fuel m = m := by
  cases fuel with
  | zero => rfl
  | succ fuel => rw [evict, if_neg (by omega)]

theorem evict_succ (hm : m.rows.argmin age = some r) (h : limit ≤ m.rows.length) :
    evict limit age (fuel + 1) m = evict limit age fuel (m.remove (key r)) := by
  rw [evict, if_pos h, hm]

theorem mem_of_mem_evict (h : r ∈ (evict limit age fuel m).rows) : r ∈ m.rows := by
  induction fuel generalizing m with
  | zero => exact h
  | succ fuel ih =>
    rw [evict] at h
    split_ifs at h
    · cases hm : m.rows.argmin age with
      | none => rwa [hm] at h
      | some r' =>
        rw [hm] at h
        exact (mem_remove.1 (ih h)).1
    · exact h

theorem length_evict_lt (hlimit : 0 < limit) (hfuel : m.rows.length ≤ fuel) :
    (evict limit age fuel m).rows.length < limit := by
  induction fuel generalizing m with
  | zero =>
    rw [evict]
    omega
  | succ fuel ih =>
    by_cases hfull : limit ≤ m.rows.length
    · obtain ⟨r, hr⟩ : ∃ r, m.rows.argmin age = some r := by
        refine Option.ne_none_iff_exists'.1 fun hnone => ?_
        rw [List.argmin_eq_none.1 hnone, List.length_nil] at hfull
        omega
      have hless := length_remove_lt (List.argmin_mem hr)
      rw [evict_succ hr hfull]
      exact ih (by omega)
    · rw [evict_of_lt (by omega)]
      omega

/-- **What a map within its limit loses.** -/
theorem mem_evict_iff (hlimit : 0 < limit) (hle : m.rows.length ≤ limit)
    (hfuel : m.rows.length ≤ fuel) (hage : ∀ r r', age r = age r' → key r = key r')
    (hr : r ∈ m.rows) : r ∈ (evict limit age fuel m).rows ↔
      m.rows.length < limit ∨ ∃ r' ∈ m.rows, age r' < age r := by
  by_cases hroom : m.rows.length < limit
  · rw [evict_of_lt hroom]
    exact ⟨fun _ => Or.inl hroom, fun _ => hr⟩
  · obtain ⟨fuel, rfl⟩ : ∃ n, fuel = n + 1 := ⟨fuel - 1, by omega⟩
    obtain ⟨first, hfirst⟩ : ∃ first, m.rows.argmin age = some first := by
      refine Option.ne_none_iff_exists'.1 fun hnone => ?_
      rw [List.argmin_eq_none.1 hnone] at hr
      cases hr
    have hmem := List.argmin_mem hfirst
    have hless := length_remove_lt hmem
    rw [evict_succ hfirst (by omega), evict_of_lt (by omega), mem_remove]
    constructor
    · -- another row was first, and its age is another age
      rintro ⟨-, hk⟩
      have hmin := List.le_of_mem_argmin hr hfirst
      exact Or.inr ⟨first, hmem, lt_of_le_of_ne hmin fun h => hk (hage _ _ h).symm⟩
    · rintro (h | ⟨r', hr', hlt⟩)
      · exact absurd h hroom
      · refine ⟨hr, fun hk => ?_⟩
        rw [eq_of_key hr hmem hk] at hlt
        exact absurd (List.le_of_mem_argmin hr' hfirst) (not_le.2 hlt)

end

end Keyed

end Table
