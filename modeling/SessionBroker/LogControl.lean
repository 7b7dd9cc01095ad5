/-
  The verbosity of the log (`LogControl`, `telemetry/mod.rs`).

  * `LogControl.advance` takes a call to the next place where it reads or writes
    what others share: the filter behind the reload handle, the override behind
    its mutex, the flag.  The subscriber lives as long as the process, so that a
    filter that parses is always accepted;
  * any interleaving of calls is a list of `LogOp`s; `advance_move` says what a
    step of one of them can do.
-/
import SessionBroker.Clock
import SessionBroker.Lib.Run
import Mathlib.Logic.Function.Basic

namespace SessionBroker

open Runs

/-! ## The handle -/

/-- What verbosity depends on in `LogConfig`. -/
structure LogConfig where
  defaultFilter : String
  overrideMaxSecs : ℕ
deriving DecidableEq, Repr

/-- `RUST_LOG` wins if it is set. -/
def LogConfig.initialFilter (config : LogConfig) (rustLog : Option String) : String :=
  (rustLog.filter (· ≠ "")).getD config.defaultFilter

structure LevelOverride where
  filter : String
  expiresAt : Timestamp
  requestedBy : Option String
deriving DecidableEq, Repr

inductive LogControlError where
  | badFilter (filter : String)
  | tooLong (requested max : ℕ)
deriving DecidableEq, Repr

/-- `installed` is the filter behind the reload handle. -/
structure LogControl where
  installed : String
  config : LogConfig
  active : Option LevelOverride
  overrideActive : Bool
deriving DecidableEq, Repr

/-- The calls, as they are made. -/
inductive LogCall where
  | setOverride (filter : String) (durationSecs : ℕ) (now : Timestamp) (requestedBy : Option String)
  | restore
  | expireDueOverride (now : Timestamp)
deriving DecidableEq, Repr

/-- What a call is about to do.  `restore` may be part of an expiry. -/
inductive LogStage where
  | idle
  | installing (filter : String) (durationSecs : ℕ) (now : Timestamp) (requestedBy : Option String)
  | recording (entry : LevelOverride)
  | marking (entry : LevelOverride)
  | looking (now : Timestamp)
  | unmarking (expiry : Bool)
  | clearing (expiry was : Bool)
  | reloading (expiry : Bool)
deriving DecidableEq, Repr

inductive LogAnswer where
  | overridden (result : Except LogControlError LevelOverride)
  | restored (result : Except LogControlError Bool)
  | expired (due : Bool)

def LogCall.start : LogCall → LogStage
  | .setOverride filter durationSecs now requestedBy =>
    .installing filter durationSecs now requestedBy
  | .restore => .unmarking false
  | .expireDueOverride now => .looking now

/-- What `restore` returns to a caller of its own, or to the expiry. -/
def LogAnswer.ofRestore (expiry : Bool) (result : Except LogControlError Bool) : LogAnswer :=
  if expiry then .expired true else .restored result

/-- The override that was set. -/
def LogAnswer.entry : LogAnswer → Option LevelOverride
  | .overridden (.ok entry) => some entry
  | _ => none

@[simp] theorem LogAnswer.entry_ofRestore (expiry : Bool) (result : Except LogControlError Bool) :
    (LogAnswer.ofRestore expiry result).entry = none := by
  cases expiry <;> rfl

namespace LogControl

/-- `init`; `parses` is `EnvFilter::try_new`. -/
def init (parses : String → Bool) (config : LogConfig) (rustLog : Option String) :
    Option LogControl :=
  let initial := config.initialFilter rustLog
  if parses initial then some ⟨initial, config, none, false⟩ else none

def effectiveFilter (log : LogControl) : String :=
  (log.active.map (·.filter)).getD log.config.defaultFilter

/-- One step of a call: the handle after it, what the call does next, and its
    answer if it is over. -/
def advance (parses : String → Bool) (log : LogControl) :
    LogStage → LogControl × LogStage × Option LogAnswer
  | .idle => (log, .idle, none)
  | .installing filter durationSecs now requestedBy =>
    if durationSecs = 0 ∨ log.config.overrideMaxSecs < durationSecs then
      (log, .idle, some (.overridden (.error (.tooLong durationSecs log.config.overrideMaxSecs))))
    else if parses filter then
      ({ log with installed := filter },
        .recording ⟨filter, now.plusSecs durationSecs, requestedBy⟩, none)
    else (log, .idle, some (.overridden (.error (.badFilter filter))))
  | .recording entry => ({ log with active := some entry }, .marking entry, none)
  | .marking entry => ({ log with overrideActive := true }, .idle, some (.overridden (.ok entry)))
  | .looking now =>
    match log.active with
    | some o => if o.expiresAt ≤ now then (log, .unmarking true, none)
      else (log, .idle, some (.expired false))
    | none => (log, .idle, some (.expired false))
  | .unmarking expiry =>
    ({ log with overrideActive := false }, .clearing expiry log.overrideActive, none)
  | .clearing expiry was =>
    if was then ({ log with active := none }, .reloading expiry, none)
    else ({ log with active := none }, .idle, some (.ofRestore expiry (.ok false)))
  | .reloading expiry =>
    if parses log.config.defaultFilter then
      ({ log with installed := log.config.defaultFilter }, .idle,
        some (.ofRestore expiry (.ok true)))
    else (log, .idle, some (.ofRestore expiry (.error (.badFilter log.config.defaultFilter))))

end LogControl

/-! ## Calls side by side -/

/-- The handle, the calls under way, and the answers given so far. -/
structure Verbosity where
  log : LogControl
  stages : ℕ → LogStage
  answers : List LogAnswer

inductive LogOp where
  | call (i : ℕ) (c : LogCall)
  | advance (i : ℕ)
deriving DecidableEq, Repr

def LogOp.caller : LogOp → ℕ
  | .call i _ | .advance i => i

def LogOp.SetsOverride : LogOp → Prop
  | .call _ (.setOverride ..) => True
  | _ => False

instance : DecidablePred LogOp.SetsOverride
  | .call _ (.setOverride ..) => isTrue trivial
  | .call _ .restore | .call _ (.expireDueOverride _) | .advance _ => isFalse id

namespace LogStage

/-- A `set_override`, whether or not it has written. -/
def OfOverride : LogStage → Prop
  | installing .. | recording _ | marking _ => True
  | _ => False

/-- A `set_override` in the middle of its writes. -/
def Setting : LogStage → Prop
  | recording _ | marking _ => True
  | _ => False

/-- A call in the middle of its writes. -/
def Writing : LogStage → Prop
  | recording _ | marking _ | clearing .. | reloading _ => True
  | _ => False

/-- A restore that is going to reload. -/
def Owes : LogStage → Prop
  | clearing _ true | reloading _ => True
  | _ => False

theorem Setting.writing {stage : LogStage} (h : stage.Setting) : stage.Writing := by
  cases stage <;> trivial

theorem Setting.ofOverride {stage : LogStage} (h : stage.Setting) : stage.OfOverride := by
  cases stage <;> trivial

theorem Owes.writing {stage : LogStage} (h : stage.Owes) : stage.Writing := by
  cases stage <;> trivial

end LogStage

namespace Verbosity

def start (log : LogControl) : Verbosity := ⟨log, fun _ => .idle, []⟩

/-- The overrides that were set, oldest first. -/
def overrides (s : Verbosity) : List LevelOverride := s.answers.filterMap LogAnswer.entry

/-- No call is in progress. -/
def Quiet (s : Verbosity) : Prop := ∀ i, s.stages i = .idle

/-- A call has come to its next stage. -/
def put (s : Verbosity) (i : ℕ) (next : LogControl × LogStage × Option LogAnswer) : Verbosity :=
  ⟨next.1, Function.update s.stages i next.2.1, s.answers ++ next.2.2.toList⟩

/-- A caller has one call under way at a time. -/
def step (parses : String → Bool) (s : Verbosity) : LogOp → Verbosity
  | .call i c =>
    if s.stages i = .idle then s.put i (s.log, c.start, none) else s
  | .advance i => s.put i (s.log.advance parses (s.stages i))

/-! ## What a step can do -/

/-- A step of the call of `i`. -/
inductive Move (parses : String → Bool) (s : Verbosity) (i : ℕ) : Verbosity → Prop
  | refuse {filter durationSecs now requestedBy e} :
      s.stages i = .installing filter durationSecs now requestedBy →
      Move parses s i (s.put i (s.log, .idle, some (.overridden (.error e))))
  | install {filter durationSecs now requestedBy} :
      s.stages i = .installing filter durationSecs now requestedBy →
      ¬(durationSecs = 0 ∨ s.log.config.overrideMaxSecs < durationSecs) → parses filter = true →
      Move parses s i (s.put i ({ s.log with installed := filter },
        .recording ⟨filter, now.plusSecs durationSecs, requestedBy⟩, none))
  | record {entry} : s.stages i = .recording entry →
      Move parses s i (s.put i ({ s.log with active := some entry }, .marking entry, none))
  | mark {entry} : s.stages i = .marking entry →
      Move parses s i (s.put i ({ s.log with overrideActive := true }, .idle,
        some (.overridden (.ok entry))))
  | notDue {now} : s.stages i = .looking now → (∀ o, s.log.active = some o → now < o.expiresAt) →
      Move parses s i (s.put i (s.log, .idle, some (.expired false)))
  | due {now o} : s.stages i = .looking now → s.log.active = some o → o.expiresAt ≤ now →
      Move parses s i (s.put i (s.log, .unmarking true, none))
  | unmark {expiry} : s.stages i = .unmarking expiry →
      Move parses s i (s.put i ({ s.log with overrideActive := false },
        .clearing expiry s.log.overrideActive, none))
  | clear {expiry} : s.stages i = .clearing expiry true →
      Move parses s i (s.put i ({ s.log with active := none }, .reloading expiry, none))
  | clearOnly {expiry} : s.stages i = .clearing expiry false →
      Move parses s i (s.put i ({ s.log with active := none }, .idle,
        some (.ofRestore expiry (.ok false))))
  | reload {expiry} : s.stages i = .reloading expiry → parses s.log.config.defaultFilter = true →
      Move parses s i (s.put i ({ s.log with installed := s.log.config.defaultFilter }, .idle,
        some (.ofRestore expiry (.ok true))))
  | reloadFails {expiry} : s.stages i = .reloading expiry →
      parses s.log.config.defaultFilter = false →
      Move parses s i (s.put i (s.log, .idle,
        some (.ofRestore expiry (.error (.badFilter s.log.config.defaultFilter)))))

variable {parses : String → Bool} {s : Verbosity} {i : ℕ}

theorem step_call (parses : String → Bool) (s : Verbosity) (i : ℕ) (c : LogCall) : s.step parses (.call i c) = s ∨
    s.stages i = .idle ∧ s.step parses (.call i c) = s.put i (s.log, c.start, none) := by
  by_cases hi : s.stages i = .idle
  · exact Or.inr ⟨hi, if_pos hi⟩
  · exact Or.inl (if_neg hi)

theorem put_idle (h : s.stages i = .idle) : s.put i (s.log, .idle, none) = s := by
  have hstages : Function.update s.stages i .idle = s.stages := by
    rw [← h, Function.update_eq_self]
  simp [put, hstages]

/-- **What a step does.** -/
theorem advance_move (parses : String → Bool) (s : Verbosity) (i : ℕ) :
    s.step parses (.advance i) = s ∨ Move parses s i (s.step parses (.advance i)) := by
  show s.put i _ = s ∨ Move parses s i (s.put i _)
  cases hi : s.stages i with
  | idle => exact Or.inl (put_idle hi)
  | installing filter durationSecs now requestedBy =>
    refine Or.inr ?_
    unfold LogControl.advance
    dsimp only
    split_ifs with hrange hparses
    · exact .refuse hi
    · exact .install hi hrange hparses
    · exact .refuse hi
  | recording entry => exact Or.inr (.record hi)
  | marking entry => exact Or.inr (.mark hi)
  | looking now =>
    refine Or.inr ?_
    unfold LogControl.advance
    dsimp only
    split
    · rename_i o ho
      split_ifs with hdue
      · exact .due hi ho hdue
      · refine .notDue hi fun o' ho' => ?_
        rw [ho, Option.some_inj] at ho'
        exact ho' ▸ not_le.1 hdue
    · rename_i ho
      exact .notDue hi (by simp [ho])
  | unmarking expiry => exact Or.inr (.unmark hi)
  | clearing expiry was =>
    cases was with
    | true => exact Or.inr (.clear hi)
    | false => exact Or.inr (.clearOnly hi)
  | reloading expiry =>
    refine Or.inr ?_
    unfold LogControl.advance
    dsimp only
    split_ifs with hparses
    · exact .reload hi hparses
    · exact .reloadFails hi (by simpa using hparses)

/-! ## The calls after a step -/

theorem put_self (next : LogControl × LogStage × Option LogAnswer) :
    (s.put i next).stages i = next.2.1 :=
  Function.update_self ..

theorem put_of_ne {j : ℕ} (h : j ≠ i) (next : LogControl × LogStage × Option LogAnswer) :
    (s.put i next).stages j = s.stages j :=
  Function.update_of_ne h ..

/-- What holds of the call that moved, and of the others. -/
theorem forall_put {P : ℕ → LogStage → Prop} {next : LogControl × LogStage × Option LogAnswer}
    (hself : P i next.2.1) (hother : ∀ j ≠ i, P j (s.stages j)) (j : ℕ) :
    P j ((s.put i next).stages j) := by
  by_cases hj : j = i
  · rw [hj, put_self]
    exact hself
  · rw [put_of_ne hj]
    exact hother j hj

theorem exists_put {P : LogStage → Prop} {next : LogControl × LogStage × Option LogAnswer}
    (hself : P (s.stages i) → P next.2.1) (h : ∃ j, P (s.stages j)) :
    ∃ j, P ((s.put i next).stages j) := by
  obtain ⟨j, hj⟩ := h
  by_cases hji : j = i
  · exact ⟨i, by rw [put_self]; exact hself (hji ▸ hj)⟩
  · exact ⟨j, by rw [put_of_ne hji]; exact hj⟩

theorem overrides_put (next : LogControl × LogStage × Option LogAnswer) :
    (s.put i next).overrides = s.overrides ++ next.2.2.toList.filterMap LogAnswer.entry :=
  List.filterMap_append

theorem overrides_put_none (log : LogControl) (stage : LogStage) :
    (s.put i (log, stage, none)).overrides = s.overrides := by
  simp [overrides_put]

theorem overrides_put_some {answer : LogAnswer} (h : answer.entry = none) (log : LogControl)
    (stage : LogStage) : (s.put i (log, stage, some answer)).overrides = s.overrides := by
  simp [overrides_put, h]

theorem step_stages_of_ne {op : LogOp} {j : ℕ} (h : j ≠ op.caller) :
    (s.step parses op).stages j = s.stages j := by
  cases op with
  | call i c =>
    rcases step_call parses s i c with heq | ⟨_, heq⟩
    · rw [heq]
    · rw [heq]
      exact put_of_ne h _
  | advance i => exact put_of_ne h _

theorem run_stages_of_ne {ops : List LogOp} {j : ℕ} (hops : ∀ op ∈ ops, j ≠ op.caller) :
    (run (step parses) s ops).stages j = s.stages j := by
  induction ops generalizing s with
  | nil => rfl
  | cons op ops ih =>
    exact (ih fun op' hop' => hops op' (.tail _ hop')).trans (step_stages_of_ne (hops op (.head _)))

end Verbosity

end SessionBroker
