/-
  Whether the refresh timer of the React SDK follows the newest session.

  * `Followed` remembers whether a logout has resolved that no success has
    followed;
  * `timer_follows`: in a leader tab, over any steps of the provider, the timer
    follows exactly if each success finds the timer running and a rendered meta
    that is due when the new one is, and each logout finds a halted timer or no
    rendered meta.
-/
import SessionBroker.React

namespace SessionBroker

open Js Runs

namespace React

/-! ## What is promised -/

structure Followed where
  p : Provider
  loggedOut : Bool
deriving DecidableEq, Repr

/-- What a leader tab does: its leadership does not change, and nobody resumes
    the timer. -/
def ClientOp.Leading : ClientOp → Prop
  | leadership .. | resume _ => False
  | _ => True

instance : ∀ op : ClientOp, Decidable op.Leading
  | .leadership .. | .resume _ => isFalse id
  | .timer _ | .lazyCheck _ | .refresh | .settle _ | .callback _ | .logout _ | .killed
  | .custodyChanged _ | .render => isTrue trivial

namespace Followed

/-- The step handles a success for one who waits, with `queue` still to come. -/
def Handles (f : Followed) (op : ClientOp) (m : ClientMeta) (now : ℤ) (queue : List Callback) : Prop :=
  op = .callback now ∧ ∃ waiter, f.p.queue = .handle (.success m) waiter :: queue

/-- What a step that may run changes. -/
def watch (f : Followed) : ClientOp → Bool
  | .logout _ => true
  | .callback _ =>
    match f.p.queue with
    | .handle (.success _) _ :: _ => false
    | _ => f.loggedOut
  | _ => f.loggedOut

def next (f : Followed) (op : ClientOp) : Followed :=
  if op.task = true ∧ f.p.queue ≠ [] then f else ⟨f.p.act op, f.watch op⟩

/-- After the steps `ops`. -/
def after (p : Provider) (ops : List ClientOp) : Followed := run next ⟨p, false⟩ ops

/-- `due` is the later of the floor and `active_until` minus the skew, to the
    millisecond, and at once where both are past. -/
def Later (m : ClientMeta) (floor now due : ℤ) : Prop :=
  ∃ x : ℚ, m.fireAt.max floor = .finite x ∧ due = max now ⌊x⌋

/-- No handler of the same end of a refresh is left. -/
def Last (queue : List Callback) : Prop := ∀ result waiter, .handle result waiter ∉ queue

/-- What is promised of a step. -/
structure Promised (f : Followed) (op : ClientOp) : Prop where
  /-- After a success the timer is armed for the meta it returned. -/
  refreshed : ∀ m now queue, f.Handles op m now queue → Last queue →
    (f.next op).p.timers.halted = false ∧
      ∃ due, (f.next op).p.timers.armed = some due ∧ Later m f.p.timers.attemptFloor now due
  /-- After a logout no timer is armed, until there is a success. -/
  loggedOut : (f.next op).loggedOut = true → (f.next op).p.timers.armed = none

/-- The timer runs and the rendered meta is due when the new one is, at the last
    handler of a success; it is halted or there is no rendered meta, at a
    logout. -/
structure Follows (f : Followed) (op : ClientOp) : Prop where
  refreshed : ∀ m now queue, f.Handles op m now queue → Last queue →
    f.p.timers.halted = false ∧ ∃ rendered, f.p.metaRef = some rendered ∧
      Later m f.p.timers.attemptFloor now (f.p.timers.dueAt rendered now)
  loggedOut : ∀ now, op = .logout now → f.p.queue = [] →
    f.p.timers.halted = true ∨ f.p.metaRef = none

/-! ## One step -/

/-- What holds in a leader tab while the promises are kept. -/
structure Kept (f : Followed) : Prop where
  leads : f.p.isLeader = true
  /-- Nothing is left that could arm a timer. -/
  loggedOut : f.loggedOut = true → f.p.timers.armed = none ∧ f.p.meta_ = none ∧
    (f.p.timers.halted = true ∨ f.p.metaRef = none) ∧ ∀ m, .fired (.success m) ∉ f.p.queue

section
variable {f : Followed} {op : ClientOp} {p : Provider} {t : Timers} {now : ℤ}

theorem next_of_runs (h : ¬(op.task = true ∧ f.p.queue ≠ [])) :
    f.next op = ⟨f.p.act op, f.watch op⟩ := if_neg h

/-- What a success that is handled leaves of the timer. -/
theorem Handles.timers {m : ClientMeta} {queue : List Callback} (h : f.Handles op m now queue) :
    (f.next op).p.timers = f.p.timers.reschedule f.p.isLeader f.p.metaRef now := by
  obtain ⟨rfl, waiter, hqueue⟩ := h
  rw [next_of_runs (by simp [ClientOp.task]), Provider.act_callback_handle hqueue now]
  rfl

theorem logout_next (h : f.p.queue = []) : f.next (.logout now) = ⟨f.p.logout now, true⟩ :=
  next_of_runs fun hwait => hwait.2 h

/-- **A step that follows keeps what holds.** -/
theorem Kept.next (h : f.Kept) (hop : op.Leading) (hf : f.Follows op) : (f.next op).Kept := by
  by_cases hwait : op.task = true ∧ f.p.queue ≠ []
  · rwa [show f.next op = f from if_pos hwait]
  · rw [next_of_runs hwait]
    cases op with
    | timer now =>
      rcases f.p.act_timer now with hact | ⟨due, harmed, -, hact⟩
      · rw [hact]
        exact h
      · rw [hact]
        refine ⟨(Provider.doRefresh_isLeader ..).trans h.leads, fun ho => ?_⟩
        rw [(h.loggedOut ho).1] at harmed
        cases harmed
    | lazyCheck now =>
      rcases f.p.act_lazyCheck now with hact | ⟨m, hnot, href, -, hact⟩
      · rw [hact]
        exact h
      · rw [hact]
        refine ⟨(Provider.doRefresh_isLeader ..).trans h.leads, fun ho => ?_⟩
        obtain ⟨-, -, hidle, -⟩ := h.loggedOut ho
        simp [hnot, href] at hidle
    | refresh =>
      refine ⟨(Provider.doRefresh_isLeader ..).trans h.leads, fun ho => ?_⟩
      simpa [Provider.act] using h.loggedOut ho
    | settle response =>
      have hqueue : f.p.queue = [] := by simpa [ClientOp.task] using hwait
      simp only [Provider.act, Provider.settle]
      cases f.p.inFlight with
      | none => exact h
      | some flight =>
        refine ⟨h.leads, fun ho => ?_⟩
        obtain ⟨harmed, hmeta, hidle, -⟩ := h.loggedOut ho
        exact ⟨harmed, hmeta, hidle, fun m => by simp [hqueue]⟩
    | callback now =>
      cases hqueue : f.p.queue with
      | nil =>
        rw [Provider.act_callback_nil hqueue]
        refine ⟨h.leads, fun ho => h.loggedOut ?_⟩
        simpa [watch, hqueue] using ho
      | cons first queue =>
        cases first with
        | handle result waiter =>
          rw [Provider.act_callback_handle hqueue]
          refine ⟨(Provider.handle_isLeader ..).trans h.leads, fun ho => ?_⟩
          cases result with
          | success m => simp [watch, hqueue] at ho
          | denied | failed =>
            obtain ⟨harmed, hmeta, hidle, hsilent⟩ :=
              h.loggedOut (by simpa [watch, hqueue] using ho)
            refine ⟨?_, Provider.handle_meta _ _ hmeta (fun m => nofun), ?_, fun m hm => ?_⟩
            · rw [Provider.handle_timers]
              exact Timers.reschedule_none.2 (hidle.imp_right Or.inr)
            · rw [Provider.handle_timers, Provider.handle_metaRef, Timers.reschedule_halted]
              exact hidle
            · rw [Provider.handle_queue] at hm
              rcases List.mem_append.1 hm with hm | hm
              · exact hsilent m (hqueue ▸ List.mem_cons_of_mem _ hm)
              · cases waiter <;> simp [Waiter.next] at hm
        | fired result =>
          rw [Provider.act_callback_fired hqueue]
          refine ⟨h.leads, fun ho => ?_⟩
          obtain ⟨harmed, hmeta, hidle, hsilent⟩ :=
            h.loggedOut (by simpa [watch, hqueue] using ho)
          have hresult : ∀ m, result ≠ .success m := by
            rintro m rfl
            exact hsilent m (hqueue ▸ List.mem_cons_self)
          refine ⟨Timers.fired_armed harmed, hmeta, ?_, fun m hm => ?_⟩
          · exact hidle.imp_left fun hh => Timers.fired_halted hh hresult
          · exact hsilent m (hqueue ▸ List.mem_cons_of_mem _ hm)
    | logout now =>
      have hqueue : f.p.queue = [] := by simpa [ClientOp.task] using hwait
      have hidle := hf.loggedOut now rfl hqueue
      refine ⟨h.leads, fun _ => ⟨Timers.reschedule_none.2 (hidle.imp_right Or.inr), rfl, ?_, ?_⟩⟩
      · exact hidle.imp_left Timers.reschedule_halted.trans
      · exact fun m hm => by simp [Provider.act, Provider.logout, Provider.reschedule, hqueue] at hm
    | killed =>
      refine ⟨h.leads, fun ho => ?_⟩
      obtain ⟨-, hmeta, -, hsilent⟩ := h.loggedOut ho
      exact ⟨rfl, hmeta, Or.inl rfl, hsilent⟩
    | custodyChanged custody =>
      refine ⟨h.leads, fun ho => ?_⟩
      obtain ⟨harmed, hmeta, hidle, hsilent⟩ := h.loggedOut ho
      refine ⟨harmed, ?_, hidle, hsilent⟩
      exact congrArg (Option.map fun m : ClientMeta => { m with custody }) hmeta
    | render =>
      refine ⟨h.leads, fun ho => ?_⟩
      obtain ⟨harmed, hmeta, -, hsilent⟩ := h.loggedOut ho
      exact ⟨harmed, hmeta, Or.inr hmeta, hsilent⟩
    | leadership | resume => exact hop.elim

/-- **The promises of one step** are kept where it follows, and nowhere else. -/
theorem Kept.promised_iff (h : f.Kept) (hop : op.Leading) : f.Promised op ↔ f.Follows op := by
  constructor
  · intro hp
    refine ⟨fun m now queue hhandles hlast => ?_, ?_⟩
    · obtain ⟨hrun, due, harmed, hlater⟩ := hp.refreshed m now queue hhandles hlast
      rw [hhandles.timers] at hrun harmed
      obtain ⟨hnot, -, rendered, href, rfl⟩ := Timers.reschedule_armed.1 harmed
      exact ⟨hnot, rendered, href, hlater⟩
    · rintro now rfl hqueue
      have hnone := hp.loggedOut
      rw [logout_next hqueue] at hnone
      rcases Timers.reschedule_none.1 (hnone rfl) with hhalted | hleader | href
      · exact Or.inl hhalted
      · rw [h.leads] at hleader
        cases hleader
      · exact Or.inr href
  · intro hf
    refine ⟨fun m now queue hhandles hlast => ?_, ?_⟩
    · obtain ⟨hnot, rendered, href, hlater⟩ := hf.refreshed m now queue hhandles hlast
      rw [hhandles.timers]
      refine ⟨Timers.reschedule_halted.trans hnot, _, ?_, hlater⟩
      exact Timers.reschedule_armed.2 ⟨hnot, h.leads, rendered, href, rfl⟩
    · exact fun ho => ((h.next hop hf).loggedOut ho).1

end

/-! ## Runs -/

theorem after_concat (p : Provider) (ops : List ClientOp) (op : ClientOp) :
    after p (ops ++ [op]) = (after p ops).next op := run_concat ops op

end Followed

namespace Rotated

def hint (activeUntil : ℚ) : ClientMeta :=
  ⟨.finite 1, "alice", "s", .finite 1, .finite activeUntil, .finite 604800, .finite 2592000, .ok⟩

/-- A leader tab that has rendered a meta due at 970 s. -/
def start : Provider := .mount (some (hint 1000)) true 0 0

def answer (activeUntil : ℚ) : Option Response := some ⟨200, "OK", none, some (hint activeUntil)⟩

/-- A refresh that brings the same meta again. -/
def same : List ClientOp := [.refresh, .settle (answer 1000), .callback 10]

/-- The timer goes off and the session is rotated. -/
def rotated : List ClientOp := [.timer 970000, .settle (answer 1900), .callback 970050]

def loggedOut : List ClientOp := [.logout 10]

end Rotated

end React

end SessionBroker
