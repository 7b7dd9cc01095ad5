/-
  A broadcast channel that holds a bounded number of values.

  * Every receiver has a place of its own in all that was sent.  `recv` hands
    out the value there; a receiver that more than `capacity` values wait for is
    told how many are gone, and goes on with the oldest one left;
  * `Follows`: what a receiver has been handed since it subscribed, and how many
    it was told are gone;
  * `Follows.complete`: one that was told of none was handed everything.
-/
import Mathlib.Data.List.TakeDrop
import Mathlib.Data.Nat.Basic
import Mathlib.Tactic.SplitIfs

namespace Broadcast

variable {α : Type*}

/-- What a receive finds. -/
inductive Received (α : Type*) where
  | value (a : α)
  | lagged (gone : ℕ)
  | empty
deriving DecidableEq, Repr

namespace Received

def values : Received α → List α
  | value a => [a]
  | lagged _ | empty => []

def gone : Received α → ℕ
  | lagged n => n
  | value _ | empty => 0

end Received

/-- A receive at the place `next`, and the place after it. -/
def recv (capacity : ℕ) (sent : List α) (next : ℕ) : Received α × ℕ :=
  if next + capacity < sent.length then
    (.lagged (sent.length - capacity - next), sent.length - capacity)
  else match sent[next]? with
    | some a => (.value a, next + 1)
    | none => (.empty, next)

/-- A receiver that subscribed after `since` values and is now at `next`: it was
    handed `got`, and told that `gone` values are gone. -/
structure Follows (sent : List α) (since next : ℕ) (got : List α) (gone : ℕ) : Prop where
  since_le : since ≤ next
  next_le : next ≤ sent.length
  sublist : got.Sublist ((sent.take next).drop since)
  length : got.length + gone = next - since

namespace Follows

variable {sent : List α} {since next gone : ℕ} {got : List α}

theorem subscribe (sent : List α) : Follows sent sent.length sent.length [] 0 where
  since_le := Nat.le_refl _
  next_le := Nat.le_refl _
  sublist := List.nil_sublist _
  length := by simp

theorem send (h : Follows sent since next got gone) (more : List α) :
    Follows (sent ++ more) since next got gone where
  since_le := h.since_le
  next_le := by
    rw [List.length_append]
    exact Nat.le_trans h.next_le (Nat.le_add_right ..)
  sublist := by
    rw [List.take_append_of_le_length h.next_le]
    exact h.sublist
  length := h.length

/-- Values before a place are before a later one. -/
theorem sublist_later (h : Follows sent since next got gone) {later : ℕ} (hl : next ≤ later) :
    got.Sublist ((sent.take later).drop since) := by
  refine h.sublist.trans (List.Sublist.drop ?_ _)
  exact (List.take_prefix_take_left hl).sublist

/-- **A receive** hands out the next value, or counts those that are gone. -/
theorem recv (h : Follows sent since next got gone) (capacity : ℕ) :
    Follows sent since (Broadcast.recv capacity sent next).2
      (got ++ (Broadcast.recv capacity sent next).1.values)
      (gone + (Broadcast.recv capacity sent next).1.gone) := by
  have hsince := h.since_le
  have hnext := h.next_le
  have hlength := h.length
  unfold Broadcast.recv
  split_ifs with hlag
  · simp only [Received.values, Received.gone, List.append_nil]
    refine ⟨by omega, by omega, h.sublist_later (by omega), by omega⟩
  · cases hget : sent[next]? with
    | none =>
      simp only [Received.values, Received.gone, List.append_nil, Nat.add_zero]
      exact h
    | some a =>
      obtain ⟨hlt, ha⟩ := List.getElem?_eq_some_iff.1 hget
      simp only [Received.values, Received.gone, Nat.add_zero]
      refine ⟨by omega, by omega, ?_, ?_⟩
      · rw [List.take_add_one, hget, Option.toList_some,
          List.drop_append_of_le_length (by rw [List.length_take]; omega)]
        exact h.sublist.append (List.Sublist.refl _)
      · rw [List.length_append, List.length_singleton]
        omega

/-- **A receiver that misses nothing** is handed everything up to its place. -/
theorem complete (h : Follows sent since next got 0) : got = (sent.take next).drop since := by
  refine h.sublist.eq_of_length ?_
  have hlength := h.length
  have hnext := h.next_le
  rw [List.length_drop, List.length_take]
  omega

end Follows

/-- **Values are lost** exactly where more than the channel holds are waiting. -/
theorem recv_gone_eq_zero_iff (capacity : ℕ) (sent : List α) (next : ℕ) :
    (recv capacity sent next).1.gone = 0 ↔ sent.length ≤ next + capacity := by
  unfold recv
  split_ifs with hlag
  · simp only [Received.gone]
    omega
  · cases sent[next]? <;> exact iff_of_true rfl (Nat.not_lt.1 hlag)

end Broadcast
