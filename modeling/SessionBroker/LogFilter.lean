/-
  Whether the filter in force is the reported one (`telemetry/mod.rs`).

  * `Exclusive`: a `set_override` writes only while no other call is in the
    middle of its writes, and a `restore` starts to write only while no
    `set_override` is;
  * `InStep`: how the filter, the override and the flag then agree, kept by
    every step;
  * `Ending`: an expiry that finds the deadline past takes the override away.
-/
import SessionBroker.LogControl

namespace SessionBroker

open Runs

namespace Verbosity

variable {parses : String → Bool} {s : Verbosity} {i : ℕ}

/-- **Exclusive writes**, as a condition on the state before a step. -/
def Exclusive (parses : String → Bool) (s : Verbosity) : LogOp → Prop
  | .call .. => True
  | .advance i =>
    match s.stages i with
    | .installing filter durationSecs _ _ =>
      durationSecs = 0 ∨ s.log.config.overrideMaxSecs < durationSecs ∨ parses filter = false ∨
        ∀ j ≠ i, ¬(s.stages j).Writing
    | .unmarking _ => ∀ j ≠ i, ¬(s.stages j).Setting
    | _ => True

/-! ## Between the writes -/

/-- No `set_override` is in the middle of its writes. -/
def Settled (s : Verbosity) : Prop := ∀ i, ¬(s.stages i).Setting

/-- **In step**: how the filter, the override and the flag agree while calls are
    under way that write one at a time.  `initial` is the filter of the
    start. -/
structure InStep (config : LogConfig) (initial : String) (s : Verbosity) : Prop where
  config_eq : s.log.config = config
  alone : ∀ i j, (s.stages i).Setting → (s.stages j).Writing → j = i
  recording : ∀ i entry, s.stages i = .recording entry → s.log.installed = entry.filter
  marking : ∀ i entry, s.stages i = .marking entry →
    s.log.installed = entry.filter ∧ s.log.active = some entry
  flagged : s.log.overrideActive = true → ∀ i, (s.stages i).Writing → (s.stages i).Setting
  up : s.log.overrideActive = true → s.Settled →
    ∃ o, s.log.active = some o ∧ s.log.installed = o.filter
  cleared : s.log.overrideActive = false → s.Settled →
    s.log.active = none ∨ ∃ i expiry was, s.stages i = .clearing expiry was
  restored : s.log.overrideActive = false → s.Settled → s.overrides ≠ [] →
    s.log.installed = config.defaultFilter ∨ ∃ i, (s.stages i).Owes
  fresh : s.Settled → s.overrides = [] →
    s.log.installed = initial ∧ s.log.overrideActive = false ∧ ∀ i, ¬(s.stages i).Owes
  last : s.Settled → ∀ o, s.log.active = some o → s.overrides.getLast? = some o

variable {config : LogConfig} {initial : String}

/-- **Reported**: with no call in progress, the filter is the reported one, once
    an override was set or where the start had the configured filter. -/
theorem InStep.reported_iff (h : s.InStep config initial) (hq : s.Quiet) :
    s.log.installed = s.log.effectiveFilter ↔ initial = config.defaultFilter ∨ s.overrides ≠ [] := by
  have hsettled : s.Settled := fun i => by rw [hq i]; exact id
  have howes : ¬∃ i, (s.stages i).Owes := by
    rintro ⟨i, hi⟩
    rw [hq i] at hi
    exact hi
  have hcleared : s.log.overrideActive = false → s.log.active = none := by
    intro hf
    rcases h.cleared hf hsettled with hnone | ⟨i, _, _, hi⟩
    · exact hnone
    · rw [hq i] at hi
      cases hi
  by_cases ho : s.overrides = []
  · obtain ⟨hinst, hflag, -⟩ := h.fresh hsettled ho
    rw [LogControl.effectiveFilter, hcleared hflag, hinst, h.config_eq]
    simp [ho]
  · refine iff_of_true ?_ (Or.inr ho)
    cases hflag : s.log.overrideActive with
    | true =>
      obtain ⟨o, hactive, hinst⟩ := h.up hflag hsettled
      rw [LogControl.effectiveFilter, hactive, hinst]
      rfl
    | false =>
      rw [LogControl.effectiveFilter, hcleared hflag, h.config_eq]
      exact (h.restored hflag hsettled ho).resolve_right howes

/-! ## Each write keeps them in step -/

/-- What is true of writers only is true of the same calls after a step that
    starts and ends outside the writes. -/
theorem aside_iff {P : LogStage → Prop} (hP : ∀ stage, P stage → stage.Writing)
    (next : LogControl × LogStage × Option LogAnswer) (hold : ¬(s.stages i).Writing)
    (hnew : ¬next.2.1.Writing) (j : ℕ) : P ((s.put i next).stages j) ↔ P (s.stages j) := by
  by_cases hj : j = i
  · rw [hj, put_self]
    exact iff_of_false (mt (hP _) hnew) (mt (hP _) hold)
  · rw [put_of_ne hj]

/-- A step outside the writes. -/
theorem InStep.aside (h : s.InStep config initial) {stage : LogStage} {answer : Option LogAnswer}
    (hold : ¬(s.stages i).Writing) (hnew : ¬stage.Writing)
    (hanswer : (s.put i (s.log, stage, answer)).overrides = s.overrides) :
    (s.put i (s.log, stage, answer)).InStep config initial := by
  have hwriting := aside_iff (fun _ => id) (s.log, stage, answer) hold hnew
  have hsetting := aside_iff (fun _ => LogStage.Setting.writing) (s.log, stage, answer)
    hold hnew
  have howes := aside_iff (fun _ => LogStage.Owes.writing) (s.log, stage, answer) hold hnew
  have hstage : ∀ stage', stage'.Writing → ∀ j,
      (s.put i (s.log, stage, answer)).stages j = stage' ↔ s.stages j = stage' :=
    fun stage' hw => aside_iff (P := (· = stage')) (fun _ heq => heq ▸ hw) _ hold hnew
  have hsettled : (s.put i (s.log, stage, answer)).Settled ↔ s.Settled :=
    forall_congr' fun j => not_congr (hsetting j)
  constructor
  · exact h.config_eq
  · intro j k hj hk
    exact h.alone j k ((hsetting j).1 hj) ((hwriting k).1 hk)
  · intro j entry hj
    exact h.recording j entry ((hstage (.recording entry) trivial j).1 hj)
  · intro j entry hj
    exact h.marking j entry ((hstage (.marking entry) trivial j).1 hj)
  · intro hf j hj
    exact (hsetting j).2 (h.flagged hf j ((hwriting j).1 hj))
  · intro hf hs
    exact h.up hf (hsettled.1 hs)
  · intro hf hs
    refine (h.cleared hf (hsettled.1 hs)).imp_right ?_
    rintro ⟨j, expiry, was, hj⟩
    exact ⟨j, expiry, was, (hstage (.clearing expiry was) trivial j).2 hj⟩
  · intro hf hs hne
    rw [hanswer] at hne
    refine (h.restored hf (hsettled.1 hs) hne).imp_right ?_
    rintro ⟨j, hj⟩
    exact ⟨j, (howes j).2 hj⟩
  · intro hs hnil
    rw [hanswer] at hnil
    obtain ⟨hinst, hflag, hno⟩ := h.fresh (hsettled.1 hs) hnil
    exact ⟨hinst, hflag, fun j hj => hno j ((howes j).1 hj)⟩
  · intro hs o ho
    rw [hanswer]
    exact h.last (hsettled.1 hs) o ho

/-- While a `set_override` is in the middle of its writes, nothing else is to be
    shown than what it has written. -/
theorem InStep.of_setting {s' : Verbosity} (hconfig : s'.log.config = config)
    (hset : (s'.stages i).Setting) (halone : ∀ j, (s'.stages j).Writing → j = i)
    (hrecording : ∀ entry, s'.stages i = .recording entry → s'.log.installed = entry.filter)
    (hmarking : ∀ entry, s'.stages i = .marking entry →
      s'.log.installed = entry.filter ∧ s'.log.active = some entry) :
    s'.InStep config initial := by
  have hbusy : ¬s'.Settled := fun hs => hs i hset
  constructor
  · exact hconfig
  · intro j k hj hk
    rw [halone k hk, halone j hj.writing]
  · intro j entry hj
    have hji := halone j (hj ▸ trivial)
    exact hrecording entry (hji ▸ hj)
  · intro j entry hj
    have hji := halone j (hj ▸ trivial)
    exact hmarking entry (hji ▸ hj)
  · intro _ j hj
    rw [halone j hj]
    exact hset
  all_goals
    intros
    exact absurd ‹s'.Settled› hbusy

theorem InStep.install (h : s.InStep config initial) (entry : LevelOverride)
    (halone : ∀ j ≠ i, ¬(s.stages j).Writing) :
    (s.put i ({ s.log with installed := entry.filter }, .recording entry, none)).InStep
      config initial := by
  refine .of_setting (i := i) h.config_eq ?_ (fun j hj => ?_) (fun entry' he => ?_) (fun entry' he => ?_)
  · rw [put_self]
    trivial
  · by_contra hji
    rw [put_of_ne hji] at hj
    exact halone j hji hj
  · rw [put_self] at he
    cases he
    rfl
  · rw [put_self] at he
    cases he

theorem InStep.record (h : s.InStep config initial) {entry : LevelOverride}
    (hi : s.stages i = .recording entry) :
    (s.put i ({ s.log with active := some entry }, .marking entry, none)).InStep config initial := by
  have hinst := h.recording i entry hi
  refine .of_setting (i := i) h.config_eq ?_ (fun j hj => ?_) (fun entry' he => ?_) (fun entry' he => ?_)
  · rw [put_self]
    trivial
  · by_contra hji
    rw [put_of_ne hji] at hj
    exact hji (h.alone i j (hi ▸ trivial) hj)
  · rw [put_self] at he
    cases he
  · rw [put_self] at he
    cases he
    exact ⟨hinst, rfl⟩

theorem InStep.mark (h : s.InStep config initial) {entry : LevelOverride}
    (hi : s.stages i = .marking entry) :
    (s.put i ({ s.log with overrideActive := true }, .idle,
      some (.overridden (.ok entry)))).InStep config initial := by
  obtain ⟨hinst, hactive⟩ := h.marking i entry hi
  -- nobody writes any more
  have hnone : ∀ j, ¬((s.put i ({ s.log with overrideActive := true }, .idle,
      some (.overridden (.ok entry)))).stages j).Writing := by
    refine forall_put (P := fun _ stage => ¬stage.Writing) id fun j hj hw => ?_
    exact hj (h.alone i j (hi ▸ trivial) hw)
  have hover := overrides_put (s := s) (i := i) ({ s.log with overrideActive := true }, .idle,
    some (.overridden (.ok entry)))
  have hne : (s.put i ({ s.log with overrideActive := true }, .idle,
      some (.overridden (.ok entry)))).overrides ≠ [] := by
    rw [hover]
    simp [LogAnswer.entry]
  constructor
  · exact h.config_eq
  · exact fun j k hj => absurd hj.writing (hnone j)
  · intro j entry' hj
    exact absurd (hj ▸ trivial) (hnone j)
  · intro j entry' hj
    exact absurd (hj ▸ trivial) (hnone j)
  · exact fun _ j hj => absurd hj (hnone j)
  · exact fun _ _ => ⟨entry, hactive, hinst⟩
  · exact fun hf => nomatch hf
  · exact fun hf => nomatch hf
  · exact fun _ hnil => absurd hnil hne
  · intro _ o ho
    rw [show s.log.active = some o from ho, Option.some_inj] at hactive
    rw [hover, hactive]
    simp [LogAnswer.entry]

/-- While restores are, the flag is down. -/
theorem InStep.of_settled {s' : Verbosity} (hconfig : s'.log.config = config)
    (hsettled : s'.Settled) (hflag : s'.log.overrideActive = false)
    (hcleared : s'.log.active = none ∨ ∃ i expiry was, s'.stages i = .clearing expiry was)
    (hrestored : s'.overrides ≠ [] →
      s'.log.installed = config.defaultFilter ∨ ∃ i, (s'.stages i).Owes)
    (hfresh : s'.overrides = [] → s'.log.installed = initial ∧ ∀ i, ¬(s'.stages i).Owes)
    (hlast : ∀ o, s'.log.active = some o → s'.overrides.getLast? = some o) :
    s'.InStep config initial := by
  constructor
  · exact hconfig
  · exact fun j k hj => absurd hj (hsettled j)
  · intro j entry hj
    exact absurd (hj ▸ trivial) (hsettled j)
  · intro j entry hj
    exact absurd (hj ▸ trivial) (hsettled j)
  · intro hf
    rw [hflag] at hf
    cases hf
  · intro hf
    rw [hflag] at hf
    cases hf
  · exact fun _ _ => hcleared
  · exact fun _ _ => hrestored
  · intro _ hnil
    exact ⟨(hfresh hnil).1, hflag, (hfresh hnil).2⟩
  · exact fun _ => hlast

theorem InStep.unmark (h : s.InStep config initial) {expiry : Bool}
    (hi : s.stages i = .unmarking expiry) (hothers : ∀ j ≠ i, ¬(s.stages j).Setting) :
    (s.put i ({ s.log with overrideActive := false },
      .clearing expiry s.log.overrideActive, none)).InStep config initial := by
  have hsettled : s.Settled := by
    intro j
    by_cases hj : j = i
    · rw [hj, hi]
      exact id
    · exact hothers j hj
  have hover := overrides_put_none (s := s) (i := i) { s.log with overrideActive := false }
    (.clearing expiry s.log.overrideActive)
  refine .of_settled h.config_eq ?_ rfl ?_ (fun hne => ?_) (fun hnil => ?_) (fun o ho => ?_)
  · exact forall_put (P := fun _ stage => ¬stage.Setting) id fun j _ => hsettled j
  · exact Or.inr ⟨i, expiry, _, put_self _⟩
  · rw [hover] at hne
    cases hflag : s.log.overrideActive with
    | true => exact Or.inr ⟨i, by rw [put_self]; trivial⟩
    | false =>
      refine (h.restored hflag hsettled hne).imp_right (exists_put fun howes => ?_)
      rw [hi] at howes
      exact howes.elim
  · rw [hover] at hnil
    obtain ⟨hinst, hflag, hno⟩ := h.fresh hsettled hnil
    refine ⟨hinst, forall_put (P := fun _ stage => ¬stage.Owes) ?_ fun j _ => hno j⟩
    rw [hflag]
    exact id
  · rw [hover]
    exact h.last hsettled o ho

/-- A restore past its first write has the others to itself. -/
theorem InStep.restoring (h : s.InStep config initial) (hw : (s.stages i).Writing)
    (hi : ¬(s.stages i).Setting) : s.Settled ∧ s.log.overrideActive = false := by
  constructor
  · intro j hj
    exact hi (h.alone j i hj hw ▸ hj)
  · by_contra hf
    exact hi (h.flagged (by simpa using hf) i hw)

theorem InStep.clear (h : s.InStep config initial) {expiry was : Bool} {answer : Option LogAnswer}
    (hi : s.stages i = .clearing expiry was)
    (hanswer : ∀ log stage, (s.put i (log, stage, answer)).overrides = s.overrides) :
    (s.put i ({ s.log with active := none }, if was then .reloading expiry else .idle,
      answer)).InStep config initial := by
  obtain ⟨hsettled, hflag⟩ := h.restoring (i := i) (hi ▸ trivial) (hi ▸ id)
  have howes : (s.stages i).Owes ↔ was = true := by
    rw [hi]
    cases was <;> simp [LogStage.Owes]
  have hnext : (if was then LogStage.reloading expiry else .idle).Owes ↔ was = true := by
    cases was <;> simp [LogStage.Owes]
  refine .of_settled h.config_eq ?_ hflag (Or.inl rfl) (fun hne => ?_) (fun hnil => ?_) nofun
  · refine forall_put (P := fun _ stage => ¬stage.Setting) ?_ fun j _ => hsettled j
    cases was <;> exact id
  · rw [hanswer] at hne
    exact (h.restored hflag hsettled hne).imp_right (exists_put fun ho => hnext.2 (howes.1 ho))
  · rw [hanswer] at hnil
    obtain ⟨hinst, -, hno⟩ := h.fresh hsettled hnil
    refine ⟨hinst, forall_put (P := fun _ stage => ¬stage.Owes) ?_ fun j _ => hno j⟩
    exact fun ho => hno i (howes.2 (hnext.1 ho))

theorem InStep.reload (h : s.InStep config initial) {expiry : Bool} {answer : Option LogAnswer}
    (hi : s.stages i = .reloading expiry)
    (hanswer : ∀ log stage, (s.put i (log, stage, answer)).overrides = s.overrides) :
    (s.put i ({ s.log with installed := s.log.config.defaultFilter }, .idle, answer)).InStep
      config initial := by
  obtain ⟨hsettled, hflag⟩ := h.restoring (i := i) (hi ▸ trivial) (hi ▸ id)
  refine .of_settled h.config_eq ?_ hflag ?_ (fun _ => Or.inl ?_) (fun hnil => ?_) (fun o ho => ?_)
  · exact forall_put (P := fun _ stage => ¬stage.Setting) id fun j _ => hsettled j
  · refine (h.cleared hflag hsettled).imp_right ?_
    rintro ⟨j, expiry', was, hj⟩
    refine ⟨j, expiry', was, ?_⟩
    rw [put_of_ne (fun hji => by rw [hji, hi] at hj; cases hj), hj]
  · rw [← h.config_eq]
    rfl
  · rw [hanswer] at hnil
    exact absurd (hi ▸ trivial) ((h.fresh hsettled hnil).2.2 i)
  · rw [hanswer]
    exact h.last hsettled o ho

theorem LogCall.start_aside (c : LogCall) : ¬c.start.Writing := by
  cases c <;> exact id

/-- **In step**, one step further. -/
theorem InStep.step (h : s.InStep config initial) (hdefault : parses config.defaultFilter = true)
    (op : LogOp) (hex : Exclusive parses s op) : (s.step parses op).InStep config initial := by
  cases op with
  | call i c =>
    rcases step_call parses s i c with heq | ⟨hi, heq⟩
    · rw [heq]
      exact h
    · rw [heq]
      exact h.aside (hi ▸ id) (LogCall.start_aside c) (by rw [overrides_put]; simp)
  | advance i =>
    rcases advance_move parses s i with heq | hmove
    · rw [heq]
      exact h
    · revert hmove
      generalize s.step parses (.advance i) = s'
      intro hmove
      cases hmove with
      | refuse hi => exact h.aside (hi ▸ id) id (overrides_put_some rfl ..)
      | install hi hrange hparses =>
        simp only [Exclusive, hi] at hex
        refine h.install ⟨_, _, _⟩ ?_
        rcases hex with hzero | hmax | hbad | halone
        · exact absurd (Or.inl hzero) hrange
        · exact absurd (Or.inr hmax) hrange
        · rw [hparses] at hbad
          cases hbad
        · exact halone
      | record hi => exact h.record hi
      | mark hi => exact h.mark hi
      | notDue hi _ => exact h.aside (hi ▸ id) id (overrides_put_some rfl ..)
      | due hi _ _ => exact h.aside (hi ▸ id) id (overrides_put_none ..)
      | unmark hi =>
        simp only [Exclusive, hi] at hex
        exact h.unmark hi hex
      | clear hi => exact h.clear hi overrides_put_none
      | clearOnly hi => exact h.clear hi (overrides_put_some (LogAnswer.entry_ofRestore ..))
      | reload hi _ => exact h.reload hi (overrides_put_some (LogAnswer.entry_ofRestore ..))
      | reloadFails hi hbad =>
        rw [h.config_eq, hdefault] at hbad
        cases hbad

theorem inStep_start (log : LogControl) (hactive : log.active = none)
    (hflag : log.overrideActive = false) : (start log).InStep log.config log.installed := by
  refine .of_settled rfl (fun _ => id) hflag (Or.inl hactive) (fun hne => absurd rfl hne)
    (fun _ => ⟨rfl, fun _ => id⟩) fun o ho => ?_
  rw [show (start log).log.active = none from hactive] at ho
  cases ho

/-! ## An expiry that finds the deadline past -/

/-- An expiry on its way to clear the override. -/
def LogStage.Takes (active : Option LevelOverride) : LogStage → Prop
  | .looking now => ∀ o, active = some o → o.expiresAt ≤ now
  | .unmarking true | .clearing true _ => True
  | _ => False

/-- No `set_override` is under way, and the expiry of `i` has taken the override
    away or is about to. -/
structure Ending (i : ℕ) (s : Verbosity) : Prop where
  ended : ∀ j, ¬(s.stages j).OfOverride
  taken : s.log.active = none ∨ LogStage.Takes s.log.active (s.stages i)

theorem Ending.put {j : ℕ} (h : s.Ending i) {next : LogControl × LogStage × Option LogAnswer}
    (hstage : ¬next.2.1.OfOverride) (hactive : next.1.active = none ∨ next.1.active = s.log.active)
    (htakes : LogStage.Takes s.log.active (s.stages j) →
      s.log.active = none ∨ next.1.active = none ∨ LogStage.Takes s.log.active next.2.1) :
    (s.put j next).Ending i := by
  refine ⟨forall_put (P := fun _ stage => ¬stage.OfOverride) hstage fun k _ => h.ended k, ?_⟩
  show next.1.active = none ∨ LogStage.Takes next.1.active ((s.put j next).stages i)
  rcases hactive with hnone | hsame
  · exact Or.inl hnone
  · rw [hsame] at htakes ⊢
    rcases h.taken with hnone | ht
    · exact Or.inl hnone
    · by_cases hij : i = j
      · subst hij
        rw [put_self]
        have := htakes ht
        tauto
      · rw [put_of_ne hij]
        exact Or.inr ht

theorem Ending.step (h : s.Ending i) {op : LogOp} (hop : ¬op.SetsOverride) :
    (s.step parses op).Ending i := by
  cases op with
  | call j c =>
    rcases step_call parses s j c with heq | ⟨hj, heq⟩
    · rw [heq]
      exact h
    · rw [heq]
      refine h.put ?_ (Or.inr rfl) fun ht => ?_
      · cases c with
        | setOverride => exact absurd trivial hop
        | restore => exact id
        | expireDueOverride => exact id
      · rw [hj] at ht
        exact ht.elim
  | advance j =>
    rcases advance_move parses s j with heq | hmove
    · rw [heq]
      exact h
    · revert hmove
      generalize s.step parses (.advance j) = s'
      intro hmove
      have hended := h.ended j
      cases hmove with
      | refuse hj | install hj | record hj | mark hj => exact absurd (hj ▸ trivial) hended
      | notDue hj hlater =>
        refine h.put id (Or.inr rfl) fun ht => Or.inl ?_
        rw [hj] at ht
        refine Option.eq_none_iff_forall_ne_some.2 fun o ho => ?_
        exact not_le.2 (hlater o ho) (ht o ho)
      | due hj _ _ => exact h.put id (Or.inr rfl) fun _ => Or.inr (Or.inr trivial)
      | @unmark expiry hj =>
        refine h.put id (Or.inr rfl) fun ht => Or.inr (Or.inr ?_)
        rw [hj] at ht
        cases expiry with
        | true => trivial
        | false => exact ht.elim
      | clear hj => exact h.put id (Or.inl rfl) fun _ => Or.inr (Or.inl rfl)
      | clearOnly hj => exact h.put id (Or.inl rfl) fun _ => Or.inr (Or.inl rfl)
      | reload hj _ | reloadFails hj _ =>
        refine h.put id (Or.inr rfl) fun ht => ?_
        rw [hj] at ht
        exact ht.elim

theorem Ending.run (h : s.Ending i) {ops : List LogOp} (hops : ∀ op ∈ ops, ¬op.SetsOverride) :
    (Runs.run (Verbosity.step parses) s ops).Ending i := by
  induction ops generalizing s with
  | nil => exact h
  | cons op ops ih =>
    exact ih (h.step (hops op (.head _))) fun op' hop' => hops op' (.tail _ hop')

/-! ## The filter in force -/

/-- From here on, `i` calls `expire_due_override` past the deadline of the last
    override set, and no later `set_override` there is. -/
structure Expires (s : Verbosity) (i : ℕ) (now : Timestamp) (after : List LogOp) : Prop where
  free : s.stages i = .idle
  ended : ∀ j, ¬(s.stages j).OfOverride
  after : ∀ op ∈ after, ¬op.SetsOverride
  due : ∃ o, s.overrides.getLast? = some o ∧ o.expiresAt ≤ now

theorem overrides_step (parses : String → Bool) (s : Verbosity) (op : LogOp) :
    s.overrides <+: (s.step parses op).overrides := by
  cases op with
  | call i c =>
    rcases step_call parses s i c with heq | ⟨_, heq⟩
    · rw [heq]
    · rw [heq, overrides_put_none]
  | advance i => exact (overrides_put _).symm ▸ List.prefix_append ..

theorem overrides_run {ops : List LogOp} (h : s.overrides ≠ []) :
    (run (step parses) s ops).overrides ≠ [] := by
  induction ops generalizing s with
  | nil => exact h
  | cons op ops ih =>
    exact ih fun hnil => h (List.prefix_nil.1 (hnil ▸ overrides_step parses s op))

variable {rustLog : Option String} {log : LogControl} {ops : List LogOp}

theorem inStep_run (hinit : LogControl.init parses config rustLog = some log)
    (hdefault : parses config.defaultFilter = true)
    (hex : Along (step parses) (Exclusive parses) (start log) ops) :
    (run (step parses) (start log) ops).InStep config (config.initialFilter rustLog) := by
  unfold LogControl.init at hinit
  dsimp only at hinit
  split_ifs at hinit
  cases hinit
  have hstart := inStep_start ⟨config.initialFilter rustLog, config, none, false⟩ rfl rfl
  exact along_invariant (fun s op h hop => h.step hdefault op hop) hstart hex

/-- An expiry called past the deadline leaves no override. -/
theorem Expires.active {now : Timestamp} (h : s.Expires i now ops)
    (hlast : ∀ o, s.log.active = some o → s.overrides.getLast? = some o)
    (hq : (run (step parses) s (.call i (.expireDueOverride now) :: ops)).Quiet) :
    (run (step parses) s (.call i (.expireDueOverride now) :: ops)).log.active = none := by
  have hcall : s.step parses (.call i (.expireDueOverride now)) =
      s.put i (s.log, .looking now, none) := if_pos h.free
  have hbegin : (s.step parses (.call i (.expireDueOverride now))).Ending i := by
    rw [hcall]
    refine ⟨forall_put (P := fun _ stage => ¬stage.OfOverride) id fun j _ => h.ended j, Or.inr ?_⟩
    rw [put_self]
    intro o ho
    obtain ⟨o', ho', hdue⟩ := h.due
    rw [hlast o ho, Option.some_inj] at ho'
    exact ho' ▸ hdue
  have hend : (run (step parses) s (.call i (.expireDueOverride now) :: ops)).Ending i :=
    hbegin.run h.after
  refine hend.taken.resolve_right ?_
  rw [hq i]
  exact id

/-- **The filter in force**, where writes are exclusive: the reported one, once an
    override was set or with the configured filter at the start, and the
    configured one after an expiry past the deadline. -/
theorem log_filter_in_force (hinit : LogControl.init parses config rustLog = some log)
    (hdefault : parses config.defaultFilter = true)
    (hex : Along (step parses) (Exclusive parses) (start log) ops)
    (hq : (run (step parses) (start log) ops).Quiet) :
    ((run (step parses) (start log) ops).log.installed =
        (run (step parses) (start log) ops).log.effectiveFilter ↔
      config.initialFilter rustLog = config.defaultFilter ∨
        (run (step parses) (start log) ops).overrides ≠ []) ∧
    ∀ before i now after, ops = before ++ .call i (.expireDueOverride now) :: after →
      (run (step parses) (start log) before).Expires i now after →
      (run (step parses) (start log) ops).log.installed = config.defaultFilter := by
  have hstep := inStep_run hinit hdefault hex
  refine ⟨hstep.reported_iff hq, ?_⟩
  rintro before i now after rfl hexpires
  have hbefore := inStep_run hinit hdefault (along_append.1 hex).1
  have hsettled : (run (step parses) (start log) before).Settled :=
    fun j hj => hexpires.ended j hj.ofOverride
  rw [run_append] at hq hstep ⊢
  have hactive := hexpires.active (hbefore.last hsettled) hq
  have hset : (run (step parses) (run (step parses) (start log) before)
      (.call i (.expireDueOverride now) :: after)).overrides ≠ [] := by
    obtain ⟨o, ho, -⟩ := hexpires.due
    exact overrides_run fun hnil => by rw [hnil] at ho; cases ho
  -- nothing is overridden, so that what is reported is the configured filter
  have hreported := (hstep.reported_iff hq).2 (Or.inr hset)
  rw [hreported, LogControl.effectiveFilter, hactive, hstep.config_eq]
  rfl

/-- Of one caller, calling again and again, the writes are exclusive. -/
theorem along_exclusive (hops : ∀ op ∈ ops, op.caller = i) (hs : ∀ j ≠ i, s.stages j = .idle) :
    Along (step parses) (Exclusive parses) s ops := by
  induction ops generalizing s with
  | nil => trivial
  | cons op ops ih =>
    have hop := hops op (.head _)
    refine ⟨?_, ih (fun op' hop' => hops op' (.tail _ hop')) fun j hj => ?_⟩
    · cases op with
      | call => trivial
      | advance k =>
        rw [← show k = i from hop] at hs
        unfold Exclusive
        dsimp only
        split
        · refine Or.inr (Or.inr (Or.inr fun j hj => ?_))
          rw [hs j hj]
          exact id
        · intro j hj
          rw [hs j hj]
          exact id
        · trivial
    · rw [step_stages_of_ne (hop ▸ hj), hs j hj]

/-- An override of thirty seconds, and the tick that finds it due. -/
def overrideThenTick : List LogOp :=
  [.call 0 (.setOverride "trace" 30 ⟨1000⟩ none), .advance 0, .advance 0, .advance 0,
    .call 0 (.expireDueOverride ⟨1030⟩), .advance 0, .advance 0, .advance 0, .advance 0]

/-- Started with `RUST_LOG=debug`. -/
def underRustLog : LogControl := ⟨"debug", ⟨"info", 60⟩, none, false⟩

theorem log_filter_in_force_tick :
    ((run (step fun _ => true) (start underRustLog) overrideThenTick).log.installed =
        (run (step fun _ => true) (start underRustLog) overrideThenTick).log.effectiveFilter) ∧
    (run (step fun _ => true) (start underRustLog) overrideThenTick).log.installed = "info" := by
  have hsolo : ∀ op ∈ overrideThenTick, op.caller = 0 := by decide
  have hidle : (run (step fun _ => true) (start underRustLog) overrideThenTick).Quiet := by
    intro j
    by_cases hj : j = 0
    · rw [hj]
      decide +kernel
    · exact run_stages_of_ne fun op hop => (hsolo op hop).symm ▸ hj
  have hinit : LogControl.init (fun _ => true) ⟨"info", 60⟩ (some "debug") = some underRustLog := by
    decide +kernel
  have h := log_filter_in_force hinit rfl (along_exclusive hsolo fun _ _ => rfl) hidle
  refine ⟨h.1.2 (Or.inr (by decide +kernel)), h.2 (overrideThenTick.take 4) 0 ⟨1030⟩
    (overrideThenTick.drop 5) (by decide) ⟨by decide +kernel, fun j => ?_, by decide, ?_⟩⟩
  · by_cases hj : j = 0
    · have hstage : (run (step fun _ => true) (start underRustLog)
          (overrideThenTick.take 4)).stages 0 = .idle := by decide +kernel
      rw [hj, hstage]
      exact id
    · rw [run_stages_of_ne fun op hop => (hsolo op (List.mem_of_mem_take hop)).symm ▸ hj]
      exact id
  · exact ⟨⟨"trace", ⟨1030⟩, none⟩, by decide +kernel, le_refl _⟩

/-- A restore between the record of an override and its mark. -/
def restoreMeanwhile : List LogOp :=
  [.call 0 (.setOverride "debug" 30 ⟨1000⟩ none), .advance 0, .advance 0, .call 1 .restore,
    .advance 1, .advance 1, .advance 0]

/-- The debug filter stays, and what is reported is the configured one. -/
theorem restore_leaves_override : ¬∀ (parses : String → Bool) (config : LogConfig)
    (rustLog : Option String) (log : LogControl), LogControl.init parses config rustLog = some log →
    parses config.defaultFilter = true → ∀ ops : List LogOp,
    (run (step parses) (start log) ops).Quiet →
    (run (step parses) (start log) ops).log.installed =
      (run (step parses) (start log) ops).log.effectiveFilter ∧
    ∀ before i now after, ops = before ++ .call i (.expireDueOverride now) :: after →
      (run (step parses) (start log) before).Expires i now after →
      (run (step parses) (start log) ops).log.installed = config.defaultFilter := by
  intro h
  have hquiet : (run (step fun _ => true) (start ⟨"info", ⟨"info", 60⟩, none, false⟩)
      restoreMeanwhile).Quiet := by
    have hcallers : ∀ op ∈ restoreMeanwhile, op.caller < 2 := by decide
    intro j
    rcases lt_or_ge j 2 with hj | hj
    · have hboth : ∀ j : Fin 2, (run (step fun _ => true)
          (start ⟨"info", ⟨"info", 60⟩, none, false⟩) restoreMeanwhile).stages j = .idle := by
        decide +kernel
      exact hboth ⟨j, hj⟩
    · exact run_stages_of_ne fun op hop => (lt_of_lt_of_le (hcallers op hop) hj).ne'
  have hsame := (h (fun _ => true) ⟨"info", 60⟩ none ⟨"info", ⟨"info", 60⟩, none, false⟩
    (by decide +kernel) rfl restoreMeanwhile hquiet).1
  revert hsame
  decide +kernel

end Verbosity

end SessionBroker
