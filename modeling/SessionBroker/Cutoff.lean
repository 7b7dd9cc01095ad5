/-
  The cutoff of the reaper (`run_reaper`, `main.rs`).

  * `reapCommand`: one turn of the loop; `runReaper`: its turns, until
    arithmetic ends the task;
  * `cutoff_kept_iff`: the cutoff is no moment ahead iff the age an operator
    asked for is below `2^63` seconds and the difference does not wrap.  Of an
    age from there on the sign flips, and people who are signed in are reaped.
-/
import SessionBroker.Reaped
import SessionBroker.Providers

namespace SessionBroker

open Signed

variable {build : Build} {reapAfterSecs : ℕ} {now : Timestamp}

/-! ## The loop -/

/-- What one turn of the loop sends, after the sweep of the map; `none` if the
    arithmetic panics. -/
def reapCommand (build : Build) (reapAfterSecs : ℕ) (now : Timestamp) : Option Command := do
  let deadBefore ← sub build (2 ^ 63) now.secs (asI64 reapAfterSecs)
  let txnBefore ← sub build (2 ^ 63) now.secs (asI64 txnTtlSecs)
  return .reap ⟨deadBefore⟩ ⟨txnBefore⟩

/-- The turns at these readings of the clock, each with what it sent. -/
def reapLoop (build : Build) (reapAfterSecs : ℕ) : List Timestamp → List (Timestamp × Command)
  | [] => []
  | now :: readings =>
    match reapCommand build reapAfterSecs now with
    | none => []
    | some cmd => (now, cmd) :: reapLoop build reapAfterSecs readings

/-- `run_reaper`. -/
def runReaper (build : Build) (reapAfterSecs : ℕ) (readings : List Timestamp) :
    List (Timestamp × Command) :=
  if reapAfterSecs = 0 then [] else reapLoop build reapAfterSecs readings

theorem mem_reapLoop {readings : List Timestamp} {sent : Timestamp × Command}
    (h : sent ∈ reapLoop build reapAfterSecs readings) :
    sent.1 ∈ readings ∧ reapCommand build reapAfterSecs sent.1 = some sent.2 := by
  induction readings with
  | nil => exact absurd h List.not_mem_nil
  | cons now readings ih =>
    unfold reapLoop at h
    split at h
    · exact absurd h List.not_mem_nil
    · rename_i cmd hcmd
      rcases List.mem_cons.1 h with rfl | h
      · exact ⟨List.mem_cons_self, hcmd⟩
      · exact ⟨List.mem_cons_of_mem _ (ih h).1, (ih h).2⟩

theorem mem_runReaper {readings : List Timestamp} {sent : Timestamp × Command}
    (h : sent ∈ runReaper build reapAfterSecs readings) :
    sent.1 ∈ readings ∧ reapCommand build reapAfterSecs sent.1 = some sent.2 := by
  unfold runReaper at h
  split_ifs at h
  · exact absurd h List.not_mem_nil
  · exact mem_reapLoop h

theorem reapCommand_eq_some {cmd : Command} :
    reapCommand build reapAfterSecs now = some cmd ↔
      ∃ deadBefore txnBefore, sub build (2 ^ 63) now.secs (asI64 reapAfterSecs) = some deadBefore ∧
        sub build (2 ^ 63) now.secs (asI64 txnTtlSecs) = some txnBefore ∧
        cmd = .reap ⟨deadBefore⟩ ⟨txnBefore⟩ := by
  simp only [reapCommand, bind, Option.bind_eq_some_iff, pure, Option.some.injEq]
  constructor
  · rintro ⟨d, hd, t, ht, rfl⟩
    exact ⟨d, t, hd, ht, rfl⟩
  · rintro ⟨d, t, hd, ht, rfl⟩
    exact ⟨d, hd, t, ht, rfl⟩

/-! ## The cutoff -/

/-- What a turn sends cuts off no moment ahead: a session whose ceiling is
    ahead goes only if it was tombstoned before the cutoff. -/
def CutoffKept (now : Timestamp) (cmd : Command) : Prop :=
  ∀ deadBefore txnBefore, cmd = .reap deadBefore txnBefore →
    deadBefore ≤ now ∧
    ∀ db : Db, db.Integrity → ∀ s ∈ db.session, now < s.row.absoluteExp →
      s ∉ (db.reap deadBefore txnBefore).1.session →
      s.row.status = .tombstoned ∧ ∃ at_, s.tombstonedAt = some at_ ∧ at_ < deadBefore

/-- The difference keeps its sign. -/
def CutoffFits (build : Build) (reapAfterSecs : ℕ) (now : Timestamp) : Prop :=
  if reapAfterSecs < 2 ^ 63 then build = .checked ∨ -2 ^ 63 ≤ now.secs - reapAfterSecs
  else 2 ^ 63 ≤ now.secs + (2 ^ 64 - reapAfterSecs) ∨
    (build = .checked ∧ now.secs - txnTtlSecs < -2 ^ 63)

instance : Decidable (CutoffFits build reapAfterSecs now) := by
  unfold CutoffFits
  infer_instance

theorem cutoffKept_reap {deadBefore txnBefore : Timestamp} :
    CutoffKept now (.reap deadBefore txnBefore) ↔ deadBefore ≤ now := by
  refine ⟨fun h => (h deadBefore txnBefore rfl).1, fun hle d t hcmd => ?_⟩
  obtain ⟨rfl, rfl⟩ := Command.reap.inj hcmd
  refine ⟨hle, fun db hdb s hs hahead hout => ?_⟩
  have hdoomed : Db.doomed deadBefore s = true := by
    by_contra hkeep
    exact hout ((Db.mem_reap_session hdb).2 ⟨hs, Bool.not_eq_true _ ▸ hkeep⟩)
  have hceil : ¬ s.row.absoluteExp < deadBefore := not_lt.2 (hle.trans hahead.le)
  cases hst : s.row.status with
  | alive => exact absurd ((Db.doomed_of_alive hst).1 hdoomed) hceil
  | tombstoned => exact ⟨rfl, ((Db.doomed_of_tombstoned hst).1 hdoomed).resolve_right hceil⟩

/-- The age of a login transaction is taken off unless a checked build panics. -/
theorem sub_txnTtl (hnow : now.IsI64) :
    sub build (2 ^ 63) now.secs (asI64 txnTtlSecs) = none ↔
      build = .checked ∧ now.secs - txnTtlSecs < -2 ^ 63 := by
  have hlo := hnow.1
  have hhi := hnow.2
  have httl : asI64 txnTtlSecs = txnTtlSecs := asI64_of_lt (by decide)
  have h600 : (txnTtlSecs : ℤ) = 600 := rfl
  rw [httl, sub_eq_none_iff]
  unfold Fits
  constructor
  · rintro ⟨hb, hf⟩
    exact ⟨hb, by omega⟩
  · rintro ⟨hb, hlow⟩
    exact ⟨hb, by omega⟩

/-- **One turn** of the loop. -/
theorem reapCommand_kept_iff (hage : reapAfterSecs < 2 ^ 64) (hnow : now.IsI64) :
    (∀ cmd, reapCommand build reapAfterSecs now = some cmd → CutoffKept now cmd) ↔
      CutoffFits build reapAfterSecs now := by
  cases htxn : sub build (2 ^ 63) now.secs (asI64 txnTtlSecs) with
  | none =>
    -- the task ends before it sends anything
    obtain ⟨hb, hlow⟩ := (sub_txnTtl hnow).1 htxn
    refine iff_of_true (fun cmd hcmd => ?_) ?_
    · obtain ⟨d, t, -, ht, -⟩ := reapCommand_eq_some.1 hcmd
      cases htxn ▸ ht
    · unfold CutoffFits
      split_ifs
      · exact Or.inl hb
      · exact Or.inr ⟨hb, hlow⟩
  | some txnBefore =>
    have hsent : (∀ cmd, reapCommand build reapAfterSecs now = some cmd → CutoffKept now cmd) ↔
        ∀ d, sub build (2 ^ 63) now.secs (asI64 reapAfterSecs) = some d → d ≤ now.secs := by
      constructor
      · intro h d hd
        exact cutoffKept_reap.1 (h _ (reapCommand_eq_some.2 ⟨d, txnBefore, hd, htxn, rfl⟩))
      · intro h cmd hcmd
        obtain ⟨d, t, hd, -, rfl⟩ := reapCommand_eq_some.1 hcmd
        exact cutoffKept_reap.2 (h d hd)
    have hno : ¬ (build = .checked ∧ now.secs - txnTtlSecs < -2 ^ 63) := by
      rw [← sub_txnTtl hnow, htxn]
      exact Option.some_ne_none _
    rw [hsent, sub_le_iff hnow.fits (fits_asI64 hage)]
    unfold CutoffFits
    rcases lt_or_ge reapAfterSecs (2 ^ 63) with hlt | hge
    · rw [asI64_of_lt hlt, if_pos (by omega), if_pos hlt]
      exact or_congr_right ⟨fun h => by omega, fun h => by omega⟩
    · rw [asI64_of_ge hge hage, if_neg (by omega), if_neg (by omega)]
      constructor
      · exact fun h => Or.inl (by omega)
      · rintro (h | h)
        · omega
        · exact absurd h hno

/-- A run whose every reading fits sends no cutoff ahead of its reading. -/
theorem runReaper_cutoffs (hage : reapAfterSecs < 2 ^ 64) {readings : List Timestamp}
    (hnow : ∀ now ∈ readings, now.IsI64)
    (hfits : ∀ now ∈ readings, CutoffFits build reapAfterSecs now) :
    ∀ sent ∈ runReaper build reapAfterSecs readings, CutoffKept sent.1 sent.2 := by
  intro sent hsent
  obtain ⟨hmem, hcmd⟩ := mem_runReaper hsent
  exact (reapCommand_kept_iff hage (hnow _ hmem)).2 (hfits _ hmem) _ hcmd

/-- **The cutoff is no moment ahead** iff the age fits. -/
theorem cutoff_kept_iff (hset : reapAfterSecs ≠ 0) (hage : reapAfterSecs < 2 ^ 64)
    (hnow : now.IsI64) :
    (∀ sent ∈ runReaper build reapAfterSecs [now], CutoffKept now sent.2) ↔
      CutoffFits build reapAfterSecs now := by
  rw [← reapCommand_kept_iff hage hnow, runReaper, if_neg hset]
  cases hcmd : reapCommand build reapAfterSecs now <;> simp [reapLoop, hcmd]

/-- The default, a day. -/
theorem cutoff_kept_day :
    runReaper .wrapping 86400 [⟨1700000000⟩] =
      [(⟨1700000000⟩, .reap ⟨1699913600⟩ ⟨1699999400⟩)] ∧
    ∀ sent ∈ runReaper .wrapping 86400 [⟨1700000000⟩], CutoffKept ⟨1700000000⟩ sent.2 :=
  ⟨by decide, (cutoff_kept_iff (by decide) (by decide) (by decide)).2 (by decide)⟩

/-- An age of `2^64 - 100` seconds cuts off 100 seconds ahead, and someone who
    is signed in for 50 more is gone. -/
theorem cutoff_ahead :
    (∀ build, runReaper build 18446744073709551516 [⟨1⟩] = [(⟨1⟩, .reap ⟨101⟩ ⟨-599⟩)]) ∧
    (∃ s ∈ Db.threeSessions.session, s.row.status = .alive ∧ s.row.absoluteExp = ⟨50⟩) ∧
    (Db.threeSessions.reap ⟨101⟩ ⟨-599⟩).1.session = [] ∧
    ¬ ∀ build, ∀ sent ∈ runReaper build 18446744073709551516 [⟨1⟩], CutoffKept ⟨1⟩ sent.2 := by
  have hsent : ∀ build, runReaper build 18446744073709551516 [⟨1⟩] = [(⟨1⟩, .reap ⟨101⟩ ⟨-599⟩)] := by
    intro build
    cases build <;> decide
  refine ⟨hsent, by decide, by decide, fun h => ?_⟩
  have hkept := h .wrapping (⟨1⟩, .reap ⟨101⟩ ⟨-599⟩) (by rw [hsent]; exact List.mem_singleton_self _)
  exact absurd (cutoffKept_reap.1 hkept) (by decide)

end SessionBroker
