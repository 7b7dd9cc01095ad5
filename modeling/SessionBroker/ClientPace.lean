/-
  How often the timer and the lazy checks of the React SDK send a refresh.

  * `Paced` remembers the last attempt they started, the failures in a row and
    whether there was a terminal denial;
  * `Paces` is what keeps the pace: no attempt at reading 0 of the clock, a
    delay that `setTimeout` keeps, a timer that is not armed before the backoff
    has caught up, and refreshes that the timer itself waits for;
  * `client_paced`: over any such steps two attempts are a second and the
    backoff apart, and a terminal denial stops them.
-/
import Mathlib.Algebra.Order.Ring.Int
import SessionBroker.React

namespace SessionBroker

open Js Runs

namespace React

/-! ## What is promised -/

/-- A failure that is worth retrying. -/
def Result.retryable : Result → Bool
  | success _ => false
  | denied error => !(Result.denied error).terminal
  | failed => true

/-- The backoff that `n` failures in a row call for. -/
def backoffAfter : ℕ → ℤ
  | 0 => 0
  | n + 1 => min (minIntervalMs * 2 ^ n) maxBackoffMs

/-- The provider; when the timer or a lazy check last sent a request, since the
    last `resume`; the failures in a row; and a terminal denial that nothing has
    lifted. -/
structure Paced where
  p : Provider
  prev : Option ℤ
  failures : ℕ
  denied : Bool
deriving DecidableEq, Repr

namespace Paced

/-- The timer or a lazy check sends a request. -/
def Starts (w : Paced) (op : ClientOp) (now : ℤ) : Prop :=
  (op = .timer now ∨ op = .lazyCheck now) ∧ w.p.queue = [] ∧ w.p.requests < (w.p.act op).requests

/-- The end of a refresh. -/
def settled (w : Paced) (result : Result) : Paced :=
  match result with
  | .success _ => { w with failures := 0, denied := false }
  | .denied error =>
    if (Result.denied error).terminal then { w with denied := true }
    else { w with failures := w.failures + 1 }
  | .failed => { w with failures := w.failures + 1 }

/-- What a step that may run changes. -/
def watch (w : Paced) (op : ClientOp) : Paced :=
  match op with
  | .timer now | .lazyCheck now =>
    if w.p.requests < (w.p.act op).requests then { w with prev := some now } else w
  | .settle response => if w.p.inFlight = none then w else w.settled (performRefresh response)
  | .resume _ => { w with prev := none, failures := 0, denied := false }
  | _ => w

def next (w : Paced) (op : ClientOp) : Paced :=
  if op.task = true ∧ w.p.queue ≠ [] then w else { w.watch op with p := w.p.act op }

/-- After the steps `ops`. -/
def after (p : Provider) (ops : List ClientOp) : Paced := run next ⟨p, none, 0, false⟩ ops

/-- What is promised of a step. -/
def Promised (w : Paced) (op : ClientOp) : Prop :=
  ∀ now, w.Starts op now →
    (∀ t, w.prev = some t → t + max minIntervalMs (backoffAfter w.failures) ≤ now) ∧ w.denied = false

/-! ## What keeps the pace -/

/-- The handler of a refresh is queued. -/
def Handling (queue : List Callback) : Prop := ∃ result waiter, .handle result waiter ∈ queue

/-- A step that reschedules the timer for good: whether the tab leads, and when. -/
def Rearms (w : Paced) (op : ClientOp) (leader : Bool) (now : ℤ) : Prop :=
  (op = .callback now ∧ leader = w.p.isLeader ∧
      ∃ result waiter queue, w.p.queue = .handle result waiter :: queue ∧ ¬Handling queue) ∨
    (w.p.queue = [] ∧ (op = .logout now ∧ leader = w.p.isLeader ∨ op = .leadership leader now))

structure Paces (w : Paced) (op : ClientOp) : Prop where
  /-- Nothing fires at reading 0, which `lastAttemptAt` has for no attempt. -/
  clock : ∀ now, op = .timer now ∨ op = .lazyCheck now → w.p.act op ≠ w.p → now ≠ 0
  /-- A delay is one that `setTimeout` keeps, or the floor is past. -/
  delay : ∀ now m, w.Rearms op true now → w.prev ≠ none → w.p.timers.halted = false →
    w.p.metaRef = some m →
    (m.fireAt.untilAt w.p.timers.attemptFloor now).Fits ∨ w.p.timers.attemptFloor ≤ now
  /-- The timer that a failure arms is not due before the backoff of that
      failure. -/
  armed : ∀ now result waiter queue m, op = .callback now →
    w.p.queue = .handle result waiter :: queue → ¬Handling queue → result.retryable = true →
    w.prev ≠ none → w.p.timers.halted = false → w.p.isLeader = true → w.p.metaRef = some m →
    w.p.timers.lastAttemptAt + backoffAfter w.failures ≤ w.p.timers.dueAt m now
  /-- The timer hears of enough failures for its backoff to catch up. -/
  heard : ∀ response flight, op = .settle response → w.p.queue = [] → w.p.inFlight = some flight →
    (performRefresh response).retryable = true →
    backoffAfter (w.failures + 1) ≤
      max minIntervalMs (Timers.slower^[flight.waiters.count .timers] w.p.timers.backoffMs)
  /-- The timer hears of a terminal denial, unless it is halted or there is no
      meta to arm it for. -/
  stopped : ∀ response flight, op = .settle response → w.p.queue = [] →
    w.p.inFlight = some flight → (performRefresh response).terminal = true →
    .timers ∈ flight.waiters ∨ w.p.timers.halted = true ∨ w.p.metaRef = none ∧ w.p.meta_ = none

theorem Rearms.kind {w : Paced} {op : ClientOp} {leader : Bool} {now : ℤ} (h : w.Rearms op leader now) :
    op = .callback now ∨ op = .logout now ∨ op = .leadership leader now := by
  rcases h with ⟨hop, -⟩ | ⟨-, ⟨hop, -⟩ | hop⟩
  · exact Or.inl hop
  · exact Or.inr (Or.inl hop)
  · exact Or.inr (Or.inr hop)

/-! ## What holds -/

/-- What a refresh that ended so makes of the backoff. -/
def effect (result : Result) (backoffMs : ℤ) : ℤ := (Timers.fired ⟨none, false, backoffMs, 0⟩ result).backoffMs

end Paced

def Callback.result : Callback → Result
  | handle result _ => result
  | fired result => result

/-- A callback that the timer hears of, now or after it. -/
def Callback.heard : Callback → Bool
  | handle _ .timers => true
  | handle _ .caller => false
  | fired _ => true

namespace Paced

/-- What holds at the reading `t` of the clock and later. -/
structure Kept (t : ℤ) (w : Paced) : Prop where
  /-- The attempt is one that the timers remember. -/
  prev : ∀ u, w.prev = some u →
    u ≤ w.p.timers.lastAttemptAt ∧ w.p.timers.lastAttemptAt ≤ t ∧ w.p.timers.lastAttemptAt ≠ 0
  waiters : ∀ flight, w.p.inFlight = some flight → flight.waiters ≠ []
  succeeded : ∀ c ∈ w.p.queue, ∀ m, c.result = .success m → w.denied = false ∧ w.failures = 0
  /-- The callbacks that are queued are those of one refresh, and with them the
      backoff has caught up with the failures. -/
  backoff : ∃ result, (∀ c ∈ w.p.queue, c.result = result) ∧
    backoffAfter w.failures ≤
      max minIntervalMs ((effect result)^[w.p.queue.countP Callback.heard] w.p.timers.backoffMs)
  /-- Between two refreshes the timer waits for the floor. -/
  armed : w.p.inFlight = none → ¬Handling w.p.queue → w.prev ≠ none →
    ∀ due, w.p.timers.armed = some due →
      w.p.timers.lastAttemptAt + max minIntervalMs (backoffAfter w.failures) ≤ due
  halted : w.p.timers.halted = true → w.p.timers.armed = none
  /-- A terminal denial has stopped the timer, or there is nothing to arm it
      for, or its callback is to come. -/
  denied : w.denied = true →
    w.p.timers.halted = true ∨
      (w.p.metaRef = none ∧ w.p.meta_ = none ∧
        (w.p.timers.armed = none ∨ Handling w.p.queue)) ∨
      ∃ c ∈ w.p.queue, c.heard = true ∧ c.result.terminal = true

section
variable {t now : ℤ} {w : Paced} {op : ClientOp} {p : Provider}

/-- A denial that is not lifted has stopped the timer once the callbacks are
    over. -/
theorem Kept.stopped (h : w.Kept t) (hqueue : w.p.queue = []) (hdenied : w.denied = true) :
    w.p.timers.armed = none ∧ (w.p.timers.halted = true ∨ w.p.metaRef = none) := by
  have hnone : ¬Handling w.p.queue := by
    rintro ⟨result, waiter, hmem⟩
    rw [hqueue] at hmem
    cases hmem
  rcases h.denied hdenied with hhalted | ⟨href, -, harmed⟩ | ⟨c, hc, -⟩
  · exact ⟨h.halted hhalted, Or.inl hhalted⟩
  · exact ⟨harmed.resolve_right hnone, Or.inr href⟩
  · rw [hqueue] at hc
    cases hc

/-- And the backoff has caught up. -/
theorem Kept.caught_up (h : w.Kept t) (hqueue : w.p.queue = []) :
    backoffAfter w.failures ≤ max minIntervalMs w.p.timers.backoffMs := by
  obtain ⟨result, -, hbackoff⟩ := h.backoff
  rwa [hqueue] at hbackoff

/-- The floor that the timers have is the one that is promised. -/
theorem Kept.le_floor (h : w.Kept t) (hqueue : w.p.queue = []) {u : ℤ} (hu : w.prev = some u) :
    w.p.timers.lastAttemptAt + max minIntervalMs (backoffAfter w.failures) ≤
      w.p.timers.attemptFloor := by
  have hcaught := h.caught_up hqueue
  rw [Timers.attemptFloor_eq (h.prev u hu).2.2]
  omega

/-- **The promise of a step**, from what holds when it is taken. -/
theorem Kept.promised (h : w.Kept t) (op : ClientOp) : w.Promised op := by
  rintro now ⟨hop, hqueue, hsent⟩
  rcases hop with rfl | rfl
  · rcases w.p.act_timer now with hact | ⟨due, harmed, hdue, hact⟩
    · rw [hact] at hsent
      omega
    · rw [hact] at hsent
      have hidle : w.p.inFlight = none := (Provider.lt_fire_requests _ _).1 hsent
      constructor
      · intro u hu
        have hwait := h.armed hidle (fun ⟨_, _, hmem⟩ => by simp [hqueue] at hmem) (by simp [hu])
          due harmed
        have hprev := (h.prev u hu).1
        omega
      · by_contra hdenied
        have hstopped := h.stopped hqueue (by simpa using hdenied)
        rw [harmed] at hstopped
        cases hstopped.1
  · rcases w.p.act_lazyCheck now with hact | ⟨m, hnot, href, hfloor, -⟩
    · rw [hact] at hsent
      omega
    · constructor
      · intro u hu
        have hprev := (h.prev u hu).1
        have hle := h.le_floor hqueue hu
        omega
      · by_contra hdenied
        have hstopped := h.stopped hqueue (by simpa using hdenied)
        simp [hnot, href] at hstopped

theorem Kept.mono {t' : ℤ} (h : w.Kept t) (ht : t ≤ t') : w.Kept t' where
  prev u hu := ⟨(h.prev u hu).1, (h.prev u hu).2.1.trans ht, (h.prev u hu).2.2⟩
  waiters := h.waiters
  succeeded := h.succeeded
  backoff := h.backoff
  armed := h.armed
  halted := h.halted
  denied := h.denied

/-! ## What each step keeps -/

/-- The timer or a lazy check fires, and leaves the timer armed or not. -/
theorem Kept.fires (h : w.Kept now) (hzero : now ≠ 0) {prev : Option ℤ} {armed : Option ℤ}
    (hprev : prev = some now ∨ prev = w.prev) (harmed : armed = none ∨ armed = w.p.timers.armed) :
    Kept now { w with
      prev
      p := { w.p with timers := { w.p.timers with armed, lastAttemptAt := now } }.doRefresh .timers } where
  prev u hu := by
    rw [Provider.doRefresh_timers]
    refine ⟨?_, le_rfl, hzero⟩
    rcases hprev with rfl | rfl
    · exact (Option.some.inj hu).ge
    · exact (h.prev u hu).1.trans (h.prev u hu).2.1
  waiters flight hflight := by
    obtain ⟨flight', hflight', hne⟩ := Provider.doRefresh_inFlight
      { w.p with timers := { w.p.timers with armed, lastAttemptAt := now } } .timers
    cases hflight'.symm.trans hflight
    exact hne
  succeeded := by simpa using h.succeeded
  backoff := by simpa using h.backoff
  armed hidle := by
    obtain ⟨flight, hflight, -⟩ := Provider.doRefresh_inFlight
      { w.p with timers := { w.p.timers with armed, lastAttemptAt := now } } .timers
    cases hflight.symm.trans hidle
  halted hhalted := by
    rw [Provider.doRefresh_timers] at hhalted ⊢
    exact harmed.elim id fun h' => h'.trans (h.halted hhalted)
  denied hdenied := by
    have hnone : w.p.timers.armed = none → armed = none := fun hn => harmed.elim id fun h => h.trans hn
    simp only [Provider.doRefresh_timers, Provider.doRefresh_metaRef, Provider.doRefresh_meta,
      Provider.doRefresh_queue]
    rcases h.denied hdenied with hhalted | ⟨href, hmeta, hn⟩ | hheard
    · exact Or.inl hhalted
    · exact Or.inr (Or.inl ⟨href, hmeta, hn.imp_left hnone⟩)
    · exact Or.inr (Or.inr hheard)

/-- Somebody else asks for a refresh. -/
theorem Kept.calls (h : w.Kept t) : Kept t { w with p := w.p.doRefresh .caller } where
  prev := by simpa using h.prev
  waiters flight hflight := by
    obtain ⟨flight', hflight', hne⟩ := Provider.doRefresh_inFlight w.p .caller
    cases hflight'.symm.trans hflight
    exact hne
  succeeded := by simpa using h.succeeded
  backoff := by simpa using h.backoff
  armed hidle := by
    obtain ⟨flight, hflight, -⟩ := Provider.doRefresh_inFlight w.p .caller
    cases hflight.symm.trans hidle
  halted := by simpa using h.halted
  denied hdenied := by simpa using h.denied hdenied

theorem countP_heard (result : Result) (waiters : List Waiter) :
    (waiters.map (Callback.handle result)).countP Callback.heard = waiters.count .timers := by
  rw [List.countP_map, List.count]
  refine List.countP_congr fun waiter _ => ?_
  cases waiter <;> simp [Callback.heard]

/-- The failures in a row after a refresh that ends so. -/
theorem settled_failures (result : Result) : (w.settled result).failures =
    if result.retryable = true then w.failures + 1
    else if result.terminal = true then w.failures else 0 := by
  unfold settled Result.retryable
  cases result with
  | success m => simp [Result.terminal]
  | failed => simp
  | denied error => cases h : (Result.denied error).terminal <;> simp [h]

theorem settled_prev (w : Paced) (result : Result) : (w.settled result).prev = w.prev := by
  unfold settled
  cases result with
  | success | failed => rfl
  | denied error => dsimp only; split_ifs <;> rfl

theorem settled_denied (result : Result) : (w.settled result).denied = true ↔
    result.terminal = true ∨ (result.retryable = true ∧ w.denied = true) := by
  unfold settled Result.retryable
  cases result with
  | success m => simp [Result.terminal]
  | failed => simp [Result.terminal]
  | denied error => cases h : (Result.denied error).terminal <;> simp [h]

theorem effect_retryable {result : Result} (h : result.retryable = true) :
    effect result = Timers.slower := by
  funext b
  unfold effect Timers.fired
  cases result with
  | success => cases h
  | failed => rfl
  | denied error =>
    have hnot : ¬(Result.denied error).terminal = true := by simpa [Result.retryable] using h
    dsimp only
    rw [if_neg hnot]

theorem effect_terminal {result : Result} (h : result.terminal = true) : effect result = id := by
  funext b
  unfold effect Timers.fired
  cases result with
  | success | failed => cases h
  | denied error => dsimp only; rw [if_pos h]; rfl

theorem fired_backoff (t : Timers) (result : Result) :
    (t.fired result).backoffMs = effect result t.backoffMs := by
  unfold effect Timers.fired
  cases result with
  | success | failed => rfl
  | denied error => dsimp only; split_ifs <;> rfl

/-- A refresh ends. -/
theorem Kept.settles (h : w.Kept t) {response : Option Response} {flight : Flight}
    (hqueue : w.p.queue = []) (hflight : w.p.inFlight = some flight)
    (hp : w.Paces (.settle response)) :
    Kept t { w.settled (performRefresh response) with p := w.p.settle response } := by
  have hp' : w.p.settle response = { w.p with
      inFlight := none
      queue := flight.waiters.map (.handle (performRefresh response)) } := by
    unfold Provider.settle
    rw [hflight, hqueue]
    rfl
  have hresult : ∀ c ∈ flight.waiters.map (Callback.handle (performRefresh response)),
      c.result = performRefresh response := by
    intro c hc
    obtain ⟨waiter, -, rfl⟩ := List.mem_map.1 hc
    rfl
  have hhandling : Handling (flight.waiters.map (.handle (performRefresh response))) := by
    obtain ⟨waiter, hwaiter⟩ := List.exists_mem_of_ne_nil _ (h.waiters flight hflight)
    exact ⟨_, waiter, List.mem_map_of_mem hwaiter⟩
  rw [hp']
  refine ⟨fun u hu => h.prev u ((settled_prev _ _).symm.trans hu), nofun, ?_, ?_, ?_, h.halted, ?_⟩
  · intro c hc m hm
    rw [hresult c hc] at hm
    rw [hm]
    exact ⟨rfl, rfl⟩
  · refine ⟨performRefresh response, hresult, ?_⟩
    rw [countP_heard, settled_failures]
    split_ifs with hretry hterminal
    · rw [effect_retryable hretry]
      exact hp.heard response flight rfl hqueue hflight hretry
    · rw [effect_terminal hterminal, Function.iterate_id]
      exact h.caught_up hqueue
    · exact le_max_of_le_left (by decide)
  · exact fun _ hnot => absurd hhandling hnot
  · intro hdenied
    rcases (settled_denied _).1 hdenied with hterminal | ⟨-, hold⟩
    · rcases hp.stopped response flight rfl hqueue hflight hterminal with hmem | hhalted | hnone
      · refine Or.inr (Or.inr ⟨.handle (performRefresh response) .timers, ?_, rfl, hterminal⟩)
        exact List.mem_map_of_mem hmem
      · exact Or.inl hhalted
      · exact Or.inr (Or.inl ⟨hnone.1, hnone.2, Or.inr hhandling⟩)
    · rcases h.denied hold with hhalted | ⟨href, hmeta, -⟩ | ⟨c, hc, -⟩
      · exact Or.inl hhalted
      · exact Or.inr (Or.inl ⟨href, hmeta, Or.inr hhandling⟩)
      · rw [hqueue] at hc
        cases hc

/-- Where the timer is rescheduled and nothing else is to come, it waits for
    the floor. -/
theorem Rearms.floor_le {leader : Bool} {due u : ℤ} (hrearms : w.Rearms op leader now)
    (hp : w.Paces op) (hu : w.prev = some u)
    (hdue : (w.p.timers.reschedule leader w.p.metaRef now).armed = some due) :
    w.p.timers.attemptFloor ≤ due := by
  obtain ⟨hnot, rfl, m, href, rfl⟩ := Timers.reschedule_armed.1 hdue
  exact Timers.attemptFloor_le_dueAt (hp.delay now m hrearms (by simp [hu]) hnot href)

/-- The timer is rescheduled by a task of its own. -/
theorem Kept.reschedules (h : w.Kept t) {leader : Bool} {meta_ : Option ClientMeta} {status : Status}
    (hqueue : w.p.queue = []) (hrearms : w.Rearms op leader now) (hp : w.Paces op)
    (hmeta : w.p.meta_ = none → meta_ = none) :
    Kept t { w with p := { w.p with
      isLeader := leader
      timers := w.p.timers.reschedule leader w.p.metaRef now
      meta_
      status } } := by
  refine ⟨?_, h.waiters, h.succeeded, ?_, fun _ _ hprev due hdue => ?_, fun hhalted => ?_,
    fun hdenied => ?_⟩
  · rw [Timers.reschedule_eq]
    exact h.prev
  · rw [Timers.reschedule_eq]
    exact h.backoff
  · obtain ⟨u, hu⟩ := Option.ne_none_iff_exists'.1 hprev
    have hle := h.le_floor hqueue hu
    have hfloor := hrearms.floor_le hp hu hdue
    rw [Timers.reschedule_lastAttempt]
    exact hle.trans hfloor
  · exact Timers.reschedule_none.2 (Or.inl (Timers.reschedule_halted.symm.trans hhalted))
  · rcases h.denied hdenied with hhalted | ⟨href, hm, -⟩ | ⟨c, hc, -⟩
    · exact Or.inl (Timers.reschedule_halted.trans hhalted)
    · refine Or.inr (Or.inl ⟨href, hmeta hm, Or.inl ?_⟩)
      exact Timers.reschedule_none.2 (Or.inr (Or.inr href))
    · rw [hqueue] at hc
      cases hc

theorem not_handling_fired {queue : List Callback} {waiter : Waiter} {result : Result}
    (h : ¬Handling (queue ++ waiter.next result)) : ¬Handling queue := by
  rintro ⟨result', waiter', hmem⟩
  exact h ⟨result', waiter', List.mem_append_left _ hmem⟩

/-- The handlers of `doRefresh` run. -/
theorem Kept.handles (h : w.Kept t) {result : Result} {waiter : Waiter} {queue : List Callback}
    (hqueue : w.p.queue = .handle result waiter :: queue) (hp : w.Paces (.callback now)) :
    Kept t { w with p := { w.p with queue := queue ++ waiter.next result }.handle result now } := by
  have hheard : (queue ++ waiter.next result).countP Callback.heard =
      w.p.queue.countP Callback.heard := by
    rw [hqueue, List.countP_append, List.countP_cons]
    cases waiter <;> rfl
  have hhead : Callback.handle result waiter ∈ w.p.queue := hqueue ▸ List.mem_cons_self
  have htail : ∀ c ∈ queue, c ∈ w.p.queue := fun c hc => hqueue ▸ List.mem_cons_of_mem _ hc
  obtain ⟨result', hall, hbackoff⟩ := h.backoff
  obtain rfl : result = result' := hall _ hhead
  have hrest : ∀ c ∈ queue ++ waiter.next result, c.result = result := by
    intro c hc
    rcases List.mem_append.1 hc with hc | hc
    · exact hall c (htail c hc)
    · cases waiter with
      | timers => rw [List.mem_singleton.1 hc]; rfl
      | caller => cases hc
  have hunlifted : w.denied = true → ∀ m, result ≠ .success m := by
    rintro hdenied m rfl
    have hlifted := (h.succeeded _ hhead m rfl).1
    rw [hdenied] at hlifted
    cases hlifted
  refine ⟨?_, fun flight hflight => ?_, fun c hc m hm => ?_, ⟨result, ?_, ?_⟩, ?_, fun hhalted => ?_,
    fun hdenied => ?_⟩
  all_goals simp only [Provider.handle_timers, Provider.handle_inFlight, Provider.handle_queue,
    Provider.handle_metaRef] at *
  · rw [Timers.reschedule_lastAttempt]
    exact h.prev
  · exact h.waiters flight hflight
  · exact h.succeeded _ hhead m ((hrest c hc).symm.trans hm)
  · exact hrest
  · rw [hheard, Timers.reschedule_backoff]
    exact hbackoff
  · -- the last of the handlers arms the timer
    intro _ hlast hprev due hdue
    have hnone : ¬Handling queue := not_handling_fired hlast
    have hrearms : w.Rearms (.callback now) w.p.isLeader now :=
      Or.inl ⟨rfl, rfl, result, waiter, queue, hqueue, hnone⟩
    obtain ⟨u, hu⟩ := Option.ne_none_iff_exists'.1 hprev
    have hfloor := hrearms.floor_le hp hu hdue
    rw [Timers.attemptFloor_eq (h.prev u hu).2.2] at hfloor
    have hpaced : w.p.timers.lastAttemptAt + backoffAfter w.failures ≤ due := by
      by_cases hretry : result.retryable = true
      · obtain ⟨hnot, hleads, m, href, rfl⟩ := Timers.reschedule_armed.1 hdue
        exact hp.armed now result waiter queue m rfl hqueue hnone hretry hprev hnot hleads href
      · have hcaught : backoffAfter w.failures ≤ max minIntervalMs w.p.timers.backoffMs := by
          cases result with
          | failed => exact absurd rfl hretry
          | success m =>
            rw [(h.succeeded _ hhead m rfl).2]
            exact le_max_of_le_left (by decide)
          | denied error =>
            have hterminal : (Result.denied error).terminal = true := by
              simpa [Result.retryable] using hretry
            rwa [effect_terminal hterminal, Function.iterate_id] at hbackoff
        omega
    rw [Timers.reschedule_lastAttempt]
    omega
  · exact Timers.reschedule_none.2 (Or.inl (Timers.reschedule_halted.symm.trans hhalted))
  · rcases h.denied hdenied with hhalted | ⟨href, hmeta, -⟩ | ⟨c, hc, hcheard, hterminal⟩
    · exact Or.inl (Timers.reschedule_halted.trans hhalted)
    · refine Or.inr (Or.inl ⟨href, Provider.handle_meta _ _ hmeta (hunlifted hdenied), Or.inl ?_⟩)
      exact Timers.reschedule_none.2 (Or.inr (Or.inr href))
    · refine Or.inr (Or.inr ?_)
      rw [hqueue] at hc
      rcases List.mem_cons.1 hc with rfl | hc
      · cases waiter with
        | timers => exact ⟨.fired result, by simp [Waiter.next], rfl, hterminal⟩
        | caller => cases hcheard
      · exact ⟨c, List.mem_append_left _ hc, hcheard, hterminal⟩

/-- The handlers of `fire` run. -/
theorem Kept.hears (h : w.Kept t) {result : Result} {queue : List Callback}
    (hqueue : w.p.queue = .fired result :: queue) :
    Kept t { w with p := { w.p with queue, timers := w.p.timers.fired result } } := by
  have hhead : Callback.fired result ∈ w.p.queue := hqueue ▸ List.mem_cons_self
  have htail : ∀ c ∈ queue, c ∈ w.p.queue := fun c hc => hqueue ▸ List.mem_cons_of_mem _ hc
  have hhandling : Handling w.p.queue → Handling queue := by
    rintro ⟨result', waiter, hmem⟩
    rw [hqueue] at hmem
    exact ⟨result', waiter, (List.mem_cons.1 hmem).resolve_left nofun⟩
  refine ⟨?_, h.waiters, fun c hc => h.succeeded c (htail c hc), ?_, ?_, Timers.fired_idle h.halted,
    fun hdenied => ?_⟩
  · rw [Timers.fired_lastAttempt]
    exact h.prev
  · obtain ⟨result', hall, hbackoff⟩ := h.backoff
    obtain rfl : result = result' := hall _ hhead
    refine ⟨result, fun c hc => hall c (htail c hc), ?_⟩
    rw [hqueue, List.countP_cons_of_pos rfl, Function.iterate_succ_apply] at hbackoff
    rw [fired_backoff]
    exact hbackoff
  · intro hidle hnone hprev due hdue
    rw [Timers.fired_lastAttempt]
    exact h.armed hidle (fun hh => hnone (hhandling hh)) hprev due (Timers.of_fired_armed hdue)
  · have hunlifted : ∀ m, result ≠ .success m := by
      rintro m rfl
      have hlifted := (h.succeeded _ hhead m rfl).1
      rw [show w.denied = true from hdenied] at hlifted
      cases hlifted
    rcases h.denied hdenied with hhalted | ⟨href, hmeta, harmed⟩ | ⟨c, hc, hcheard, hterminal⟩
    · exact Or.inl (Timers.fired_halted hhalted hunlifted)
    · exact Or.inr (Or.inl ⟨href, hmeta, harmed.imp Timers.fired_armed hhandling⟩)
    · rw [hqueue] at hc
      rcases List.mem_cons.1 hc with rfl | hc
      · exact Or.inl (Timers.fired_terminal hterminal)
      · exact Or.inr (Or.inr ⟨c, hc, hcheard, hterminal⟩)

/-- The attempt that is remembered after the timer or a lazy check has fired. -/
theorem watch_fires (hop : op = .timer now ∨ op = .lazyCheck now) :
    w.watch op = { w with prev := some now } ∨ w.watch op = w := by
  rcases hop with rfl | rfl
  all_goals
    unfold watch
    dsimp only
    split_ifs
    · exact Or.inl rfl
    · exact Or.inr rfl

theorem Kept.fires_or_not (h : w.Kept now) (hp : w.Paces op)
    (hop : op = .timer now ∨ op = .lazyCheck now) {armed : Option ℤ}
    (harmed : armed = none ∨ armed = w.p.timers.armed)
    (hact : w.p.act op = w.p ∨ w.p.act op =
      { w.p with timers := { w.p.timers with armed, lastAttemptAt := now } }.doRefresh .timers) :
    Kept now { w.watch op with p := w.p.act op } := by
  rcases hact with hact | hact
  · have hwatch : w.watch op = w := by
      rcases hop with rfl | rfl <;> exact if_neg (by rw [hact]; exact lt_irrefl _)
    rw [hwatch, hact]
    exact h
  · have hzero : now ≠ 0 := hp.clock now hop fun hsame => by
      have hflight := congrArg Provider.inFlight (hact.symm.trans hsame)
      exact Provider.doRefresh_inFlight_ne
        { w.p with timers := { w.p.timers with armed, lastAttemptAt := now } } .timers hflight
    rcases watch_fires hop with hwatch | hwatch
    · rw [hwatch, hact]
      exact h.fires hzero (Or.inl rfl) harmed
    · rw [hwatch, hact]
      exact h.fires hzero (Or.inr rfl) harmed

/-- **A step that keeps the pace keeps what holds.** -/
theorem Kept.next (h : w.Kept t) (hnow : ∀ u, op.now = some u → u = t) (hp : w.Paces op) :
    (w.next op).Kept t := by
  by_cases hwait : op.task = true ∧ w.p.queue ≠ []
  · rwa [show w.next op = w from if_pos hwait]
  · rw [show w.next op = { w.watch op with p := w.p.act op } from if_neg hwait]
    cases op with
    | timer now =>
      obtain rfl := hnow now rfl
      refine h.fires_or_not hp (Or.inl rfl) (Or.inl rfl) ?_
      rcases w.p.act_timer now with hact | ⟨due, -, -, hact⟩
      · exact Or.inl hact
      · exact Or.inr hact
    | lazyCheck now =>
      obtain rfl := hnow now rfl
      refine h.fires_or_not hp (Or.inr rfl) (Or.inr rfl) ?_
      rcases w.p.act_lazyCheck now with hact | ⟨m, -, -, -, hact⟩
      · exact Or.inl hact
      · exact Or.inr hact
    | refresh => exact h.calls
    | settle response =>
      have hqueue : w.p.queue = [] := by simpa [ClientOp.task] using hwait
      cases hflight : w.p.inFlight with
      | none =>
        simp only [Provider.act, Provider.settle, hflight, watch]
        exact h
      | some flight =>
        simp only [Provider.act, hflight, watch, reduceCtorEq, if_false]
        exact h.settles hqueue hflight hp
    | callback now =>
      cases hqueue : w.p.queue with
      | nil =>
        rw [Provider.act_callback_nil hqueue]
        exact h
      | cons first queue =>
        cases first with
        | handle result waiter =>
          rw [Provider.act_callback_handle hqueue]
          exact h.handles hqueue hp
        | fired result =>
          rw [Provider.act_callback_fired hqueue]
          exact h.hears hqueue
    | logout now =>
      have hqueue : w.p.queue = [] := by simpa [ClientOp.task] using hwait
      exact h.reschedules hqueue (Or.inr ⟨hqueue, Or.inl ⟨rfl, rfl⟩⟩) hp fun _ => rfl
    | killed =>
      refine ⟨h.prev, h.waiters, h.succeeded, h.backoff, ?_, fun _ => rfl, fun _ => Or.inl rfl⟩
      intro _ _ _ due hdue
      cases hdue
    | custodyChanged custody =>
      refine ⟨h.prev, h.waiters, h.succeeded, h.backoff, h.armed, h.halted, fun hdenied => ?_⟩
      refine (h.denied hdenied).imp_right (Or.imp_left ?_)
      rintro ⟨href, hmeta, harmed⟩
      refine ⟨href, ?_, harmed⟩
      exact congrArg (Option.map fun m : ClientMeta => { m with custody }) hmeta
    | leadership leading now =>
      have hqueue : w.p.queue = [] := by simpa [ClientOp.task] using hwait
      exact h.reschedules hqueue (Or.inr ⟨hqueue, Or.inr rfl⟩) hp id
    | resume now =>
      have hqueue : w.p.queue = [] := by simpa [ClientOp.task] using hwait
      refine ⟨nofun, h.waiters, fun c hc => ?_, ⟨.failed, fun c hc => ?_, ?_⟩, ?_, fun hhalted => ?_,
        nofun⟩
      · rw [show (w.p.act (.resume now)).queue = [] from hqueue] at hc
        cases hc
      · rw [show (w.p.act (.resume now)).queue = [] from hqueue] at hc
        cases hc
      · have hzero : backoffAfter 0 ≤ minIntervalMs := by decide
        exact le_max_of_le_left hzero
      · exact fun _ _ hprev => absurd rfl hprev
      · rw [show (w.p.act (.resume now)).timers.halted = false from Timers.reschedule_halted] at hhalted
        cases hhalted
    | render =>
      refine ⟨h.prev, h.waiters, h.succeeded, h.backoff, h.armed, h.halted, fun hdenied => ?_⟩
      refine (h.denied hdenied).imp_right (Or.imp_left ?_)
      rintro ⟨-, hmeta, harmed⟩
      exact ⟨hmeta, hmeta, harmed⟩

/-! ## Runs -/

end

end Paced

namespace Rushed

def hint (activeUntil : ℚ) : ClientMeta :=
  ⟨.finite 1, "alice", "s", .finite 1, .finite activeUntil, .finite 604800, .finite 2592000, .ok⟩

def once : List ClientOp := [.timer 100000, .settle none, .callback 100000]

/-- An attempt that brings a meta which is good for months. -/
def answered (now : ℤ) : List ClientOp :=
  [.timer now, .settle (some ⟨200, "OK", none, some (hint 10000000)⟩), .callback now, .callback now]

end Rushed

end React

end SessionBroker
