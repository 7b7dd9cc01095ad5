/-
  The session provider of the React SDK (`provider.tsx`, `refresh.ts`).

  * A step is what runs without a break: a task of the browser, the next of
    the callbacks that the end of a refresh has queued, a render, or a call of
    `doRefresh` by the app or by `brokerFetch`.  A task starts only when no
    callback is queued;
  * `status` and `meta` have every update that was made; what `metaRef` holds
    is what was last rendered;
  * times are milliseconds of the local clock, on which a timer goes off no
    earlier than it is due;
  * the refresh log and the state of the event stream are for display and left
    out.
-/
import SessionBroker.Lib.Number
import SessionBroker.Lib.Run
import SessionBroker.Types

namespace SessionBroker

open Js Runs

namespace React

/-! ## The types of the contract -/

/-- `SessionMeta`, whose numbers nobody checks. -/
structure ClientMeta where
  v : Number
  sub : String
  sid : String
  gen : Number
  activeUntil : Number
  refreshUntil : Number
  absoluteUntil : Number
  custody : CustodyStatus
deriving DecidableEq, Repr

/-- `SessionStatus`. -/
inductive Status where
  | anonymous
  | active
  | refreshing
  | expired
deriving DecidableEq, Repr

/-- `RefreshDeniedError`. -/
structure RefreshDenied where
  code : String
  detail : String
  status : ℕ
  loginUrl : Option String
deriving DecidableEq, Repr

/-- An error body, whose fields may be missing. -/
structure ErrorBody where
  error : Option String
  detail : Option String
  loginUrl : Option String
deriving DecidableEq, Repr

/-- An answer to `POST /session/refresh`, and what its body parses to as an
    error and as a meta. -/
structure Response where
  status : ℕ
  statusText : String
  errorBody : Option ErrorBody
  metaBody : Option ClientMeta
deriving DecidableEq, Repr

/-- How a refresh ends; it is rejected where there is no answer, or no meta in
    the answer. -/
inductive Result where
  | success (meta_ : ClientMeta)
  | denied (error : RefreshDenied)
  | failed
deriving DecidableEq, Repr

/-- `performRefresh`, from the answer if there is one. -/
def performRefresh : Option Response → Result
  | none => .failed
  | some response =>
    if 200 ≤ response.status ∧ response.status < 300 then
      match response.metaBody with
      | some meta_ => .success meta_
      | none => .failed
    else
      let body := response.errorBody
      .denied
        { code := (body.bind ErrorBody.error).getD "bad_request"
          detail := (body.bind ErrorBody.detail).getD response.statusText
          status := response.status
          loginUrl := body.bind ErrorBody.loginUrl }

/-- `TERMINAL_CODES`. -/
def terminalCodes : List String :=
  ["invalid_session", "session_expired", "login_required", "upstream_revoked", "csrf_rejected"]

/-- A denial that no retry can fix. -/
def Result.terminal : Result → Bool
  | denied error => terminalCodes.contains error.code
  | _ => false

/-! ## The timers -/

def minIntervalMs : ℤ := 1000

def maxBackoffMs : ℤ := 60000

/-- `skewMs`. -/
def skewMs : ℤ := 30000

/-- The variables of `startRefreshTimers`; `armed` is when the timer is due. -/
structure Timers where
  armed : Option ℤ
  halted : Bool
  backoffMs : ℤ
  lastAttemptAt : ℤ
deriving DecidableEq, Repr

/-- `active_until * 1000 - skewMs`. -/
def ClientMeta.fireAt (m : ClientMeta) : Number := m.activeUntil.map fun s => s * 1000 - skewMs

namespace Timers

def start : Timers := ⟨none, false, 0, 0⟩

/-- `attemptFloor`. -/
def attemptFloor (t : Timers) : ℤ :=
  if t.lastAttemptAt = 0 then 0 else t.lastAttemptAt + max minIntervalMs t.backoffMs

/-- When a timer that is armed for the meta now is due. -/
def dueAt (t : Timers) (m : ClientMeta) (now : ℤ) : ℤ :=
  now + (m.fireAt.untilAt t.attemptFloor now).timeout

/-- `reschedule`. -/
def reschedule (t : Timers) (leader : Bool) (meta_ : Option ClientMeta) (now : ℤ) : Timers :=
  if t.halted then { t with armed := none }
  else if leader = false then { t with armed := none }
  else
    match meta_ with
    | none => { t with armed := none }
    | some m => { t with armed := some (t.dueAt m now) }

section
variable {t : Timers} {leader : Bool} {meta_ : Option ClientMeta} {now due : ℤ}

/-- Arming is all it does. -/
theorem reschedule_eq (t : Timers) (leader : Bool) (meta_ : Option ClientMeta) (now : ℤ) :
    t.reschedule leader meta_ now = { t with armed := (t.reschedule leader meta_ now).armed } := by
  unfold reschedule
  split_ifs
  · rfl
  · rfl
  · cases meta_ <;> rfl

theorem reschedule_halted : (t.reschedule leader meta_ now).halted = t.halted := by
  rw [reschedule_eq]

theorem reschedule_backoff : (t.reschedule leader meta_ now).backoffMs = t.backoffMs := by
  rw [reschedule_eq]

theorem reschedule_lastAttempt :
    (t.reschedule leader meta_ now).lastAttemptAt = t.lastAttemptAt := by
  rw [reschedule_eq]

/-- When `reschedule` arms the timer, and for when. -/
theorem reschedule_armed : (t.reschedule leader meta_ now).armed = some due ↔
    t.halted = false ∧ leader = true ∧ ∃ m, meta_ = some m ∧ t.dueAt m now = due := by
  unfold reschedule
  cases t.halted <;> cases leader <;> cases meta_ <;> simp

theorem reschedule_none : (t.reschedule leader meta_ now).armed = none ↔
    t.halted = true ∨ leader = false ∨ meta_ = none := by
  unfold reschedule
  cases t.halted <;> cases leader <;> cases meta_ <;> simp

theorem attemptFloor_eq (h : t.lastAttemptAt ≠ 0) :
    t.attemptFloor = t.lastAttemptAt + max minIntervalMs t.backoffMs := if_neg h

/-- A timer whose delay is kept is not due before the floor. -/
theorem attemptFloor_le_dueAt {m : ClientMeta}
    (h : (m.fireAt.untilAt t.attemptFloor now).Fits ∨ t.attemptFloor ≤ now) :
    t.attemptFloor ≤ t.dueAt m now := by
  rcases h with hfits | hpast
  · exact Number.floor_le hfits
  · have hnonneg := Number.timeout_untilAt_nonneg m.fireAt t.attemptFloor now
    unfold dueAt
    omega

end

/-- The next backoff. -/
def slower (backoffMs : ℤ) : ℤ := min (max (backoffMs * 2) minIntervalMs) maxBackoffMs

/-- The handlers of `fire`. -/
def fired (t : Timers) : Result → Timers
  | .success _ => { t with halted := false, backoffMs := 0 }
  | .denied error =>
    if (Result.denied error).terminal then { t with halted := true, armed := none }
    else { t with backoffMs := slower t.backoffMs }
  | .failed => { t with backoffMs := slower t.backoffMs }

section
variable {t : Timers} {result : Result}

/-- **What a result does to the timer**: it ends a halt, it halts, or it slows
    the next attempt down. -/
theorem fired_cases (t : Timers) (result : Result) :
    (∃ m, result = .success m ∧ t.fired result = { t with halted := false, backoffMs := 0 }) ∨
    (result.terminal = true ∧ t.fired result = { t with halted := true, armed := none }) ∨
    (result.terminal = false ∧ t.fired result = { t with backoffMs := slower t.backoffMs }) := by
  cases result with
  | success m => exact Or.inl ⟨m, rfl, rfl⟩
  | failed => exact Or.inr (Or.inr ⟨rfl, rfl⟩)
  | denied error =>
    cases hterminal : (Result.denied error).terminal with
    | true => exact Or.inr (Or.inl ⟨rfl, if_pos hterminal⟩)
    | false => exact Or.inr (Or.inr ⟨rfl, if_neg (by simp [hterminal])⟩)

theorem fired_armed (h : t.armed = none) : (t.fired result).armed = none := by
  obtain ⟨m, -, he⟩ | ⟨-, he⟩ | ⟨-, he⟩ := fired_cases t result
  · rwa [he]
  · rw [he]
  · rwa [he]

theorem of_fired_armed {due : ℤ} (h : (t.fired result).armed = some due) : t.armed = some due := by
  obtain ⟨m, -, he⟩ | ⟨-, he⟩ | ⟨-, he⟩ := fired_cases t result
  · rwa [he] at h
  · rw [he] at h
    cases h
  · rwa [he] at h

theorem fired_lastAttempt : (t.fired result).lastAttemptAt = t.lastAttemptAt := by
  obtain ⟨m, -, he⟩ | ⟨-, he⟩ | ⟨-, he⟩ := fired_cases t result <;> rw [he]

theorem fired_terminal (h : result.terminal = true) : (t.fired result).halted = true := by
  obtain ⟨m, rfl, -⟩ | ⟨-, he⟩ | ⟨hgoes, -⟩ := fired_cases t result
  · cases h
  · rw [he]
  · rw [h] at hgoes
    cases hgoes

/-- A halted timer is not armed. -/
theorem fired_idle (h : t.halted = true → t.armed = none) (hhalted : (t.fired result).halted = true) :
    (t.fired result).armed = none := by
  obtain ⟨m, -, he⟩ | ⟨-, he⟩ | ⟨-, he⟩ := fired_cases t result
  · rw [he] at hhalted
    cases hhalted
  · rw [he]
  · rw [he] at hhalted ⊢
    exact h hhalted

/-- Only a success ends a halt. -/
theorem fired_halted (h : t.halted = true) (hresult : ∀ m, result ≠ .success m) :
    (t.fired result).halted = true := by
  obtain ⟨m, rfl, -⟩ | ⟨-, he⟩ | ⟨-, he⟩ := fired_cases t result
  · exact absurd rfl (hresult m)
  · rw [he]
  · rwa [he]

end

/-- `halt`. -/
def halt (t : Timers) : Timers := { t with halted := true, armed := none }

end Timers

/-! ## The provider -/

/-- Who called `doRefresh`: `fire`, or the app or `brokerFetch`. -/
inductive Waiter where
  | timers
  | caller
deriving DecidableEq, Repr

/-- The request in flight, by its number, and who waits for it. -/
structure Flight where
  number : ℕ
  waiters : List Waiter
deriving DecidableEq, Repr

/-- A callback that is queued: the handlers of `doRefresh` for one who waits,
    or those of `fire`. -/
inductive Callback where
  | handle (result : Result) (waiter : Waiter)
  | fired (result : Result)
deriving DecidableEq, Repr

/-- What the handlers of `doRefresh` leave to run. -/
def Waiter.next : Waiter → Result → List Callback
  | timers, result => [.fired result]
  | caller, _ => []

structure Provider where
  isLeader : Bool
  timers : Timers
  meta_ : Option ClientMeta
  status : Status
  metaRef : Option ClientMeta
  inFlight : Option Flight
  /-- The requests sent so far. -/
  requests : ℕ
  queue : List Callback
deriving DecidableEq, Repr

/-- `statusFromMeta`. -/
def statusFromMeta (meta_ : Option ClientMeta) (now : ℤ) : Status :=
  match meta_ with
  | none => .anonymous
  | some m =>
    if (m.absoluteUntil.map (· * 1000)).le now || (m.refreshUntil.map (· * 1000)).le now then .expired
    else .active

namespace Provider

/-- The first render and the effect after it. -/
def mount (meta_ : Option ClientMeta) (leader : Bool) (renderedAt startedAt : ℤ) : Provider where
  isLeader := leader
  timers := Timers.start.reschedule leader meta_ startedAt
  meta_
  status := statusFromMeta meta_ renderedAt
  metaRef := meta_
  inFlight := none
  requests := 0
  queue := []

/-- `timerRef.current.reschedule()`. -/
def reschedule (p : Provider) (now : ℤ) : Provider :=
  { p with timers := p.timers.reschedule p.isLeader p.metaRef now }

/-- `doRefresh`, up to the end of the refresh: a request is sent unless one is
    in flight. -/
def doRefresh (p : Provider) (waiter : Waiter) : Provider :=
  match p.inFlight with
  | some flight =>
    { p with
      status := .refreshing
      inFlight := some { flight with waiters := flight.waiters ++ [waiter] } }
  | none =>
    { p with
      status := .refreshing
      inFlight := some ⟨p.requests + 1, [waiter]⟩
      requests := p.requests + 1 }

/-- `fire`. -/
def fire (p : Provider) (now : ℤ) : Provider :=
  { p with timers := { p.timers with armed := none, lastAttemptAt := now } }.doRefresh .timers

/-- `lazyCheck`. -/
def lazyCheck (p : Provider) (now : ℤ) : Provider :=
  if p.timers.halted then p
  else
    match p.metaRef with
    | none => p
    | some m =>
      if now < p.timers.attemptFloor then p
      else if m.fireAt.le now then
        -- unlike the timer's own firing, this leaves an armed timer armed
        { p with timers := { p.timers with lastAttemptAt := now } }.doRefresh .timers
      else p

/-- The end of the refresh: its callbacks are queued, in order. -/
def settle (p : Provider) (response : Option Response) : Provider :=
  match p.inFlight with
  | none => p
  | some flight =>
    { p with
      inFlight := none
      queue := p.queue ++ flight.waiters.map (.handle (performRefresh response)) }

/-- The handlers of `doRefresh`. -/
def handle (p : Provider) (result : Result) (now : ℤ) : Provider :=
  match result with
  | .success m => { p with meta_ := some m, status := .active }.reschedule now
  | .denied error =>
    if error.code = "invalid_session" then
      { p with meta_ := none, status := .anonymous }.reschedule now
    else { p with status := .expired }.reschedule now
  | .failed => { p with status := .expired }.reschedule now

/-- The next callback. -/
def callback (p : Provider) (now : ℤ) : Provider :=
  match p.queue with
  | [] => p
  | .handle result waiter :: queue => { p with queue := queue ++ waiter.next result }.handle result now
  | .fired result :: queue => { p with queue, timers := p.timers.fired result }

/-- `logout`, once its request has been answered. -/
def logout (p : Provider) (now : ℤ) : Provider :=
  { p with meta_ := none, status := .anonymous }.reschedule now

/-- A `session.killed` event. -/
def killed (p : Provider) : Provider := { p with status := .expired, timers := p.timers.halt }

/-- A `custody.changed` event. -/
def custodyChanged (p : Provider) (custody : CustodyStatus) : Provider :=
  { p with meta_ := p.meta_.map fun m => { m with custody } }

/-- The listener of the election. -/
def leadership (p : Provider) (leading : Bool) (now : ℤ) : Provider :=
  { p with isLeader := leading }.reschedule now

/-- `resume`, which the provider itself never calls. -/
def resume (p : Provider) (now : ℤ) : Provider :=
  { p with
    timers := { p.timers with halted := false, backoffMs := 0, lastAttemptAt := 0 } }.reschedule now

def render (p : Provider) : Provider := { p with metaRef := p.meta_ }

end Provider

/-! ## Steps -/

inductive ClientOp where
  | timer (now : ℤ)
  | lazyCheck (now : ℤ)
  | refresh
  | settle (response : Option Response)
  | callback (now : ℤ)
  | logout (now : ℤ)
  | killed
  | custodyChanged (custody : CustodyStatus)
  | leadership (leading : Bool) (now : ℤ)
  | resume (now : ℤ)
  | render
deriving DecidableEq, Repr

/-- The reading of the clock, where a step reads it. -/
def ClientOp.now : ClientOp → Option ℤ
  | timer now | lazyCheck now | callback now | logout now | leadership _ now | resume now => some now
  | refresh | settle _ | killed | custodyChanged _ | render => none

/-- A task, which waits for the callbacks of the last one. -/
def ClientOp.task : ClientOp → Bool
  | refresh | callback _ | render => false
  | _ => true

namespace Provider

/-- A step that may run. -/
def act (p : Provider) : ClientOp → Provider
  | .timer now => if p.timers.armed.any (· ≤ now) then p.fire now else p
  | .lazyCheck now => p.lazyCheck now
  | .refresh => p.doRefresh .caller
  | .settle response => p.settle response
  | .callback now => p.callback now
  | .logout now => p.logout now
  | .killed => p.killed
  | .custodyChanged custody => p.custodyChanged custody
  | .leadership leading now => p.leadership leading now
  | .resume now => p.resume now
  | .render => p.render

def step (p : Provider) (op : ClientOp) : Provider :=
  if op.task = true ∧ p.queue ≠ [] then p else p.act op

section
variable {p : Provider} {op : ClientOp}

/-- A timer that went off, or did not. -/
theorem act_timer (p : Provider) (now : ℤ) : p.act (.timer now) = p ∨
    ∃ due, p.timers.armed = some due ∧ due ≤ now ∧ p.act (.timer now) = p.fire now := by
  unfold act
  cases harmed : p.timers.armed with
  | none => exact Or.inl rfl
  | some due =>
    by_cases hdue : due ≤ now
    · exact Or.inr ⟨due, rfl, hdue, by simp [hdue]⟩
    · exact Or.inl (by simp [hdue])

/-- A lazy check that fired, or did not. -/
theorem act_lazyCheck (p : Provider) (now : ℤ) : p.act (.lazyCheck now) = p ∨
    ∃ m, p.timers.halted = false ∧ p.metaRef = some m ∧ p.timers.attemptFloor ≤ now ∧
      p.act (.lazyCheck now) =
        { p with timers := { p.timers with lastAttemptAt := now } }.doRefresh .timers := by
  show p.lazyCheck now = p ∨ ∃ m, _ ∧ _ ∧ _ ∧ p.lazyCheck now = _
  unfold lazyCheck
  by_cases hhalted : p.timers.halted = true
  · exact Or.inl (if_pos hhalted)
  · rw [if_neg hhalted]
    cases hmeta : p.metaRef with
    | none => exact Or.inl rfl
    | some m =>
      dsimp only
      split_ifs with hfloor hdue
      · exact Or.inl rfl
      · exact Or.inr ⟨m, by simpa using hhalted, rfl, by omega, rfl⟩
      · exact Or.inl rfl

theorem act_callback_nil (h : p.queue = []) (now : ℤ) : p.act (.callback now) = p := by
  unfold act callback
  rw [h]

theorem act_callback_handle {result : Result} {waiter : Waiter} {queue : List Callback}
    (h : p.queue = .handle result waiter :: queue) (now : ℤ) : p.act (.callback now) =
      { p with queue := queue ++ waiter.next result }.handle result now := by
  unfold act callback
  rw [h]

theorem act_callback_fired {result : Result} {queue : List Callback}
    (h : p.queue = .fired result :: queue) (now : ℤ) :
    p.act (.callback now) = { p with queue, timers := p.timers.fired result } := by
  unfold act callback
  rw [h]

section
variable (result : Result) (now : ℤ)

@[simp] theorem handle_timers :
    (p.handle result now).timers = p.timers.reschedule p.isLeader p.metaRef now := by
  unfold handle
  cases result with
  | success | failed => rfl
  | denied error => dsimp only; split_ifs <;> rfl

@[simp] theorem handle_metaRef : (p.handle result now).metaRef = p.metaRef := by
  unfold handle
  cases result with
  | success | failed => rfl
  | denied error => dsimp only; split_ifs <;> rfl

@[simp] theorem handle_isLeader : (p.handle result now).isLeader = p.isLeader := by
  unfold handle
  cases result with
  | success | failed => rfl
  | denied error => dsimp only; split_ifs <;> rfl

@[simp] theorem handle_queue : (p.handle result now).queue = p.queue := by
  unfold handle
  cases result with
  | success | failed => rfl
  | denied error => dsimp only; split_ifs <;> rfl

@[simp] theorem handle_inFlight : (p.handle result now).inFlight = p.inFlight := by
  unfold handle
  cases result with
  | success | failed => rfl
  | denied error => dsimp only; split_ifs <;> rfl

/-- Only a success brings a meta. -/
theorem handle_meta (h : p.meta_ = none) (hresult : ∀ m, result ≠ .success m) :
    (p.handle result now).meta_ = none := by
  unfold handle
  cases result with
  | success m => exact absurd rfl (hresult m)
  | failed => exact h
  | denied error =>
    dsimp only
    split_ifs
    · rfl
    · exact h

end

section
variable (p) (waiter : Waiter)

@[simp] theorem doRefresh_timers : (p.doRefresh waiter).timers = p.timers := by
  unfold doRefresh
  cases p.inFlight <;> rfl

@[simp] theorem doRefresh_meta : (p.doRefresh waiter).meta_ = p.meta_ := by
  unfold doRefresh
  cases p.inFlight <;> rfl

@[simp] theorem doRefresh_metaRef : (p.doRefresh waiter).metaRef = p.metaRef := by
  unfold doRefresh
  cases p.inFlight <;> rfl

@[simp] theorem doRefresh_status : (p.doRefresh waiter).status = .refreshing := by
  unfold doRefresh
  cases p.inFlight <;> rfl

@[simp] theorem doRefresh_queue : (p.doRefresh waiter).queue = p.queue := by
  unfold doRefresh
  cases p.inFlight <;> rfl

@[simp] theorem doRefresh_isLeader : (p.doRefresh waiter).isLeader = p.isLeader := by
  unfold doRefresh
  cases p.inFlight <;> rfl

/-- A request is sent unless one is in flight. -/
theorem lt_doRefresh_requests :
    p.requests < (p.doRefresh waiter).requests ↔ p.inFlight = none := by
  unfold doRefresh
  cases p.inFlight <;> simp

theorem lt_fire_requests (now : ℤ) : p.requests < (p.fire now).requests ↔ p.inFlight = none :=
  lt_doRefresh_requests
    { p with timers := { p.timers with armed := none, lastAttemptAt := now } } .timers

/-- One more waits. -/
theorem doRefresh_inFlight_ne : (p.doRefresh waiter).inFlight ≠ p.inFlight := by
  unfold doRefresh
  cases p.inFlight with
  | none => exact nofun
  | some flight =>
    intro h
    have hlength := congrArg (fun f : Flight => f.waiters.length) (Option.some.inj h)
    simp at hlength

/-- And then one is, with somebody waiting. -/
theorem doRefresh_inFlight :
    ∃ flight, (p.doRefresh waiter).inFlight = some flight ∧ flight.waiters ≠ [] := by
  unfold doRefresh
  cases p.inFlight <;> simp

end

end

end Provider

end React

end SessionBroker
