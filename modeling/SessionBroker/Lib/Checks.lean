/-
  A handler as a list of checks: each refuses with its own error, or lets the
  rest go on.
-/
import Mathlib.Tactic.SplitIfs

namespace Checks

variable {ε α β : Type}

/-- `ok_or`. -/
def okOr (e : ε) : Option α → Except ε α
  | some a => .ok a
  | none => .error e

def refuse (bad : Bool) (e : ε) : Except ε Unit := if bad then .error e else .ok ()

theorem okOr_bind {e : ε} {x : Option α} {rest : α → Except ε β} {b : β} :
    (okOr e x >>= rest) = .ok b ↔ ∃ a, x = some a ∧ rest a = .ok b := by
  cases x <;> simp [okOr, bind, Except.bind]

theorem refuse_bind {e : ε} {bad : Bool} {rest : Unit → Except ε β} {b : β} :
    (refuse bad e >>= rest) = .ok b ↔ bad = false ∧ rest () = .ok b := by
  cases bad <;> simp [refuse, bind, Except.bind]

theorem refuse_ok {e : ε} {bad : Bool} {u : Unit} : refuse bad e = .ok u ↔ bad = false := by
  cases bad <;> simp [refuse]

end Checks
