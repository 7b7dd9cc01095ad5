/-
  Callers in a list, each of which may have spent one thing.

  `spends` says what a caller has spent.  Setting one caller leaves all that
  was spent as it was, or adds one thing to it (`set_same`, `set_new`).
-/
import Mathlib.Data.List.Nodup
import Mathlib.Data.Nat.Notation

namespace Spent

variable {α β : Type} {spends : α → Option β} {callers : List α} {i : ℕ} {a a' : α} {b : β}

theorem set_same (hi : callers[i]? = some a) (h : spends a' = spends a) :
    (callers.set i a').filterMap spends = callers.filterMap spends := by
  induction callers generalizing i with
  | nil => rfl
  | cons c callers ih =>
    cases i with
    | zero =>
      obtain rfl := Option.some.inj hi
      rw [List.set_cons_zero, List.filterMap_cons, List.filterMap_cons, h]
    | succ i =>
      rw [List.set_cons_succ, List.filterMap_cons, List.filterMap_cons, ih hi]

theorem set_new (hi : callers[i]? = some a) (h : spends a = none) (h' : spends a' = some b) :
    ((callers.set i a').filterMap spends).Perm (b :: callers.filterMap spends) := by
  induction callers generalizing i with
  | nil => cases hi
  | cons c callers ih =>
    cases i with
    | zero =>
      obtain rfl := Option.some.inj hi
      rw [List.set_cons_zero, List.filterMap_cons_some h', List.filterMap_cons_none h]
    | succ i =>
      rw [List.set_cons_succ]
      cases hc : spends c with
      | none =>
        rw [List.filterMap_cons_none hc, List.filterMap_cons_none hc]
        exact ih hi
      | some b' =>
        rw [List.filterMap_cons_some hc, List.filterMap_cons_some hc]
        exact ((ih hi).cons b').trans (.swap b b' _)

end Spent
