/-
  Whether the event stream of the React SDK stays within its bounds.

  * `Tidy`: at most one source is open, and either it or a timer is there, not
    both; it holds also where a callback runs in the middle of a step;
  * `Watched` remembers where the last `open` event was;
  * `stream_bounded`: over any steps, for a base delay that is positive, or zero
    and not doubled too often.
-/
import Mathlib.Data.List.Nodup
import SessionBroker.Stream

namespace SessionBroker

open Js Runs

namespace Events

namespace EventStream

variable {cfg : Settings} {s : EventStream}

/-! ## One stream -/

structure Tidy (cfg : Settings) (s : EventStream) : Prop where
  pending : s.pending = s.reconnectTimer.toList
  current : ∀ source, s.current = some source → s.live = [source] ∧ s.reconnectTimer = none
  idle : s.current = none → s.live = []
  ended : s.halted = true ∨ s.closed = true → s.current = none ∧ s.state = .closed
  waiting : s.reconnectTimer ≠ none → s.closed = false → s.state = .connecting ∧ s.halted = false
  failures : s.halted = false → ¬cfg.maxConsecutiveFailures ≤ .finite s.consecutiveFailures
  factory : s.halted = false → cfg.factory = true
  nodup : s.listeners.Nodup

/-- A stream with a source is neither halted nor closed. -/
theorem Tidy.running (h : s.Tidy cfg) {source : ℕ} (hcurrent : s.current = some source) :
    s.halted = false ∧ s.closed = false := by
  constructor
  · by_contra hhalted
    have hnone := (h.ended (Or.inl (by simpa using hhalted))).1
    rw [hcurrent] at hnone
    cases hnone
  · by_contra hclosed
    have hnone := (h.ended (Or.inr (by simpa using hclosed))).1
    rw [hcurrent] at hnone
    cases hnone

/-- What `close` leaves alone. -/
theorem close_frame (s : EventStream) : s.close.created = s.created ∧ s.close.armed = s.armed ∧
    s.close.consecutiveFailures = s.consecutiveFailures ∧ s.close.halted = s.halted ∧
    s.close.listeners = s.listeners ∧ s.close.delivered = s.delivered := by
  unfold close clearReconnectTimer closeSource
  split_ifs
  · simp
  · dsimp only
    cases s.reconnectTimer <;> cases s.current <;> simp

@[simp] theorem close_created : s.close.created = s.created := s.close_frame.1

@[simp] theorem close_armed : s.close.armed = s.armed := s.close_frame.2.1

@[simp] theorem close_failures : s.close.consecutiveFailures = s.consecutiveFailures :=
  s.close_frame.2.2.1

@[simp] theorem close_halted : s.close.halted = s.halted := s.close_frame.2.2.2.1

@[simp] theorem close_listeners : s.close.listeners = s.listeners := s.close_frame.2.2.2.2.1

@[simp] theorem close_delivered : s.close.delivered = s.delivered := s.close_frame.2.2.2.2.2

theorem close_closed : s.close.closed = true := by
  unfold close clearReconnectTimer closeSource
  split_ifs with hclosed
  · exact hclosed
  · dsimp only
    cases s.reconnectTimer <;> cases s.current <;> rfl

/-- What `close` does to a stream that is not closed. -/
theorem Tidy.close_eq (h : s.Tidy cfg) (hopen : s.closed = false) : s.close = { s with
    closed := true
    reconnectTimer := none
    pending := []
    live := []
    current := none
    state := .closed } := by
  have hpending := h.pending
  unfold EventStream.close clearReconnectTimer closeSource
  rw [hopen]
  simp only [Bool.false_eq_true, if_false]
  cases htimer : s.reconnectTimer with
  | none =>
    rw [htimer] at hpending
    cases hcurrent : s.current with
    | none => simp [h.idle hcurrent, hpending]
    | some source => simp [(h.current source hcurrent).1, hpending]
  | some timer =>
    rw [htimer] at hpending
    cases hcurrent : s.current with
    | none => simp [h.idle hcurrent, hpending]
    | some source =>
      rw [(h.current source hcurrent).2] at htimer
      cases htimer

theorem Tidy.close (h : s.Tidy cfg) : s.close.Tidy cfg := by
  by_cases hclosed : s.closed = true
  · rwa [show s.close = s from if_pos hclosed]
  · rw [h.close_eq (by simpa using hclosed)]
    exact ⟨rfl, nofun, fun _ => rfl, fun _ => ⟨rfl, rfl⟩, fun hne => absurd rfl hne, h.failures,
      h.factory, h.nodup⟩

theorem setState_same {next : StreamState} (h : s.state = next) (closes : Bool) :
    s.setState next closes = s := if_pos h

/-- A change of the state, whoever closes the stream when he hears of it. -/
theorem Tidy.setState {next : StreamState} (h : { s with state := next }.Tidy cfg) (closes : Bool) :
    (s.setState next closes).Tidy cfg ∧
      ((s.setState next closes).closed = false → s.setState next closes = { s with state := next }) := by
  unfold EventStream.setState
  split_ifs with hsame hcloses
  · subst hsame
    exact ⟨h, fun _ => rfl⟩
  · refine ⟨h.close, fun hopen => ?_⟩
    rw [close_closed] at hopen
    cases hopen
  · exact ⟨h, fun _ => rfl⟩

theorem setState_frame (next : StreamState) (closes : Bool) :
    (s.setState next closes).created = s.created ∧ (s.setState next closes).armed = s.armed ∧
    (s.setState next closes).consecutiveFailures = s.consecutiveFailures ∧
    (s.setState next closes).halted = s.halted ∧
    (s.setState next closes).listeners = s.listeners ∧
    (s.setState next closes).delivered = s.delivered := by
  unfold setState
  split_ifs <;> simp

/-- `connect` while the stream waits for it. -/
theorem connect_eq (hstate : s.state = .connecting) (hrunning : s.halted = false ∧ s.closed = false)
    (hfactory : cfg.factory = true) (closes : Bool) : s.connect cfg closes = { s with
      reconnectTimer := none
      created := s.created + 1
      live := s.live ++ [s.created]
      current := some s.created } := by
  have hset : ({ s with reconnectTimer := none } : EventStream).setState .connecting closes =
      { s with reconnectTimer := none } :=
    setState_same (s := { s with reconnectTimer := none }) hstate closes
  unfold connect
  dsimp only
  rw [if_neg (by simp [hrunning, hfactory]), hset]

theorem connect_of_closed (hclosed : s.closed = true) (closes : Bool) :
    s.connect cfg closes = { s with reconnectTimer := none } := by
  unfold connect
  dsimp only
  rw [if_pos (by simp [hclosed])]

/-! ## One step -/

/-- A timer goes off, if it is armed: a source is created, unless the stream is
    closed. -/
theorem Tidy.fire_cases (h : s.Tidy cfg) (timer : ℕ) (closes : Bool) :
    s.fire cfg timer closes = s ∨
    (s.closed = true ∧
      s.fire cfg timer closes = { s with reconnectTimer := none, pending := [] }) ∨
    (s.reconnectTimer = some timer ∧ s.closed = false ∧
      s.fire cfg timer closes = { s with
        reconnectTimer := none
        pending := []
        created := s.created + 1
        live := [s.created]
        current := some s.created }) := by
  have hpending := h.pending
  unfold fire
  split_ifs with harmed
  · rw [hpending, Option.mem_toList] at harmed
    have htimer : s.reconnectTimer = some timer := harmed
    rw [htimer] at hpending
    have hgone : s.pending.filter (· ≠ timer) = [] := by simp [hpending]
    rw [hgone]
    by_cases hclosed : s.closed = true
    · exact Or.inr (Or.inl ⟨hclosed, connect_of_closed (by exact hclosed) closes⟩)
    · have hopen : s.closed = false := by simpa using hclosed
      obtain ⟨hstate, hrunning⟩ := h.waiting (by simp [htimer]) hopen
      have hcurrent : s.current = none := by
        by_contra hsome
        obtain ⟨source, hsource⟩ := Option.ne_none_iff_exists'.1 hsome
        rw [(h.current source hsource).2] at htimer
        cases htimer
      refine Or.inr (Or.inr ⟨htimer, hopen, ?_⟩)
      rw [connect_eq (s := { s with pending := [] }) hstate ⟨hrunning, hopen⟩ (h.factory hrunning)]
      simp [h.idle hcurrent]
  · exact Or.inl rfl

/-- No source is open and no timer is armed. -/
structure Stopped (s : EventStream) : Prop where
  current : s.current = none
  live : s.live = []
  timer : s.reconnectTimer = none
  pending : s.pending = []

/-- Nothing that closes the stream arms a timer. -/
theorem Stopped.setState (h : s.Stopped) (next : StreamState) (closes : Bool) :
    (s.setState next closes).Stopped := by
  unfold EventStream.setState
  split_ifs
  · exact h
  · unfold EventStream.close clearReconnectTimer closeSource
    simp only [h.timer, h.current]
    split_ifs <;> exact ⟨rfl, h.live, rfl, h.pending⟩
  · exact ⟨h.current, h.live, h.timer, h.pending⟩

/-- The failure that is counted was one too many, or a timer is armed. -/
theorem Stopped.failed (h : s.Stopped) (hrunning : s.halted = false ∧ s.closed = false)
    (hfactory : cfg.factory = true) (hnodup : s.listeners.Nodup) (closes : Bool) :
    (s.failed cfg closes).Tidy cfg ∧
    ((cfg.maxConsecutiveFailures ≤ .finite s.consecutiveFailures ∧
        (s.failed cfg closes).armed = s.armed ∧ (s.failed cfg closes).reconnectTimer = none) ∨
      (¬cfg.maxConsecutiveFailures ≤ .finite s.consecutiveFailures ∧
        (s.failed cfg closes).armed = s.armed ++ [cfg.delay s.consecutiveFailures])) ∧
    (s.failed cfg closes).created = s.created ∧
    (s.failed cfg closes).consecutiveFailures = s.consecutiveFailures ∧
    (s.failed cfg closes).delivered = s.delivered := by
  unfold EventStream.failed
  by_cases hmany : cfg.maxConsecutiveFailures ≤ .finite s.consecutiveFailures
  · rw [if_pos hmany]
    have htidy : { s with halted := true, state := .closed }.Tidy cfg :=
      ⟨by simp [h.timer, h.pending], by simp [h.current], fun _ => h.live,
        fun _ => ⟨h.current, rfl⟩, fun hne => absurd h.timer hne, nofun, nofun, hnodup⟩
    have hstopped : { s with halted := true }.Stopped := ⟨h.current, h.live, h.timer, h.pending⟩
    obtain ⟨hcreated, harmed, hfailures, -, -, hdelivered⟩ :=
      setState_frame (s := { s with halted := true }) .closed closes
    exact ⟨(Tidy.setState htidy closes).1, Or.inl ⟨hmany, harmed, (hstopped.setState ..).timer⟩,
      hcreated, hfailures, hdelivered⟩
  · rw [if_neg hmany]
    have htidy : { s with state := .connecting }.Tidy cfg :=
      ⟨by simp [h.timer, h.pending], by simp [h.current], fun _ => h.live,
        fun hover => by simp [hrunning] at hover, fun hne => absurd h.timer hne, fun _ => hmany,
        fun _ => hfactory, hnodup⟩
    obtain ⟨hset, hopen⟩ := Tidy.setState htidy closes
    have hstopped := h.setState .connecting closes
    obtain ⟨hcreated, harmed, hfailures, hhalted, hlisteners, hdelivered⟩ :=
      setState_frame (s := s) .connecting closes
    generalize s.setState .connecting closes = t at *
    refine ⟨⟨?_, ?_, fun _ => hstopped.live, ?_, fun _ hclosed => ?_, fun _ => ?_, fun _ => hfactory,
      hset.nodup⟩, Or.inr ⟨hmany, ?_⟩, hcreated, hfailures, hdelivered⟩
    · simp [hstopped.pending]
    · simp [hstopped.current]
    · exact hset.ended
    · rw [hopen hclosed]
      exact ⟨rfl, hrunning.1⟩
    · rwa [hfailures]
    · show t.armed ++ [cfg.delay t.consecutiveFailures] = _
      rw [harmed, hfailures]

/-- A source fails: nothing happens if it was replaced, and else the app closes
    the stream or the failure is counted. -/
theorem Tidy.onError_cases (h : s.Tidy cfg) (source : ℕ) (reports closes : Bool) :
    s.onError cfg source reports closes = s ∨
    (s.current = some source ∧
      (s.onError cfg source reports closes = ({ s with live := [], current := none } : EventStream).close ∨
        s.onError cfg source reports closes =
          ({ s with
            live := []
            current := none
            consecutiveFailures := s.consecutiveFailures + 1 } : EventStream).failed cfg closes)) := by
  unfold onError
  by_cases hcurrent : s.current = some source
  · refine Or.inr ⟨hcurrent, ?_⟩
    rw [if_neg (not_not.2 hcurrent)]
    have hsource : ({ s.closeSource source with current := none } : EventStream) =
        { s with live := [], current := none } := by
      simp [closeSource, (h.current source hcurrent).1]
    rw [hsource]
    cases reports with
    | true =>
      left
      dsimp only
      rw [if_pos rfl, if_pos close_closed]
    | false =>
      right
      have hopen : ¬s.closed = true := by simp [(h.running hcurrent).2]
      simp only [Bool.false_eq_true, if_false]
      rw [if_neg hopen]
  · exact Or.inl (if_pos hcurrent)

theorem Tidy.stopped (h : s.Tidy cfg) {source : ℕ} (hcurrent : s.current = some source) (n : ℕ) :
    ({ s with live := [], current := none, consecutiveFailures := n } : EventStream).Stopped := by
  have htimer := (h.current source hcurrent).2
  exact ⟨rfl, rfl, htimer, by simp [h.pending, htimer]⟩

/-- The source has been closed and the stream goes on. -/
theorem Tidy.lost (h : s.Tidy cfg) {source : ℕ} (hcurrent : s.current = some source) :
    ({ s with live := [], current := none } : EventStream).Tidy cfg where
  pending := h.pending
  current := nofun
  idle _ := rfl
  ended hover := by simp [h.running hcurrent] at hover
  waiting hne := absurd (h.current source hcurrent).2 hne
  failures := h.failures
  factory := h.factory
  nodup := h.nodup

theorem Tidy.onOpen (h : s.Tidy cfg) (hmax : Number.finite 1 ≤ cfg.maxConsecutiveFailures)
    {source : ℕ} (hcurrent : s.current = some source) (closes : Bool) :
    (s.onOpen source closes).Tidy cfg ∧ (s.onOpen source closes).consecutiveFailures = 0 ∧
    (s.onOpen source closes).created = s.created ∧ (s.onOpen source closes).armed = s.armed ∧
    ((s.onOpen source closes).closed = false → (s.onOpen source closes).reconnectTimer = none) := by
  have hzero : ¬cfg.maxConsecutiveFailures ≤ .finite (0 : ℕ) := by
    intro hle
    exact absurd (Number.le_of_le_of_le hmax hle) (by decide)
  have htidy : ({ s with consecutiveFailures := 0, state := .open } : EventStream).Tidy cfg :=
    ⟨h.pending, h.current, h.idle, fun hover => by simp [h.running hcurrent] at hover,
      fun hne => absurd (h.current source hcurrent).2 hne, fun _ => hzero, h.factory, h.nodup⟩
  unfold EventStream.onOpen
  rw [if_neg (not_not.2 hcurrent)]
  obtain ⟨hset, hopen⟩ := Tidy.setState (s := { s with consecutiveFailures := 0 }) htidy closes
  obtain ⟨hcreated, harmed, hfailures, -⟩ :=
    setState_frame (s := { s with consecutiveFailures := 0 }) .open closes
  refine ⟨hset, hfailures, hcreated, harmed, fun hclosed => ?_⟩
  rw [hopen hclosed]
  exact (h.current source hcurrent).2

/-- Whatever the listeners do, each of them hears of the event. -/
theorem foldl_tell (event : StreamEvent) (closers : ℕ → Bool) (listeners : List ℕ) (s : EventStream) :
    listeners.foldl (tell event closers) s =
      { (if listeners.any closers then s.close else s) with
        delivered := s.delivered ++ listeners.map (·, event) } := by
  have hclose : ∀ (t : EventStream) d, ({ t with delivered := d } : EventStream).close =
      { t.close with delivered := d } := by
    intro t d
    unfold EventStream.close clearReconnectTimer closeSource
    dsimp only
    split_ifs
    · rfl
    · cases t.reconnectTimer <;> cases t.current <;> rfl
  have hidem : ∀ t : EventStream, t.close.close = t.close := fun t => if_pos close_closed
  induction listeners generalizing s with
  | nil => simp
  | cons listener listeners ih =>
    rw [List.foldl_cons, ih]
    have htell : tell event closers s listener =
        { (if closers listener then s.close else s) with
          delivered := s.delivered ++ [(listener, event)] } := by
      unfold tell
      cases closers listener with
      | true => exact hclose s _
      | false => rfl
    have hdelivered : (s.delivered ++ [(listener, event)]) ++ listeners.map (·, event) =
        s.delivered ++ (listener :: listeners).map (·, event) := by simp
    rw [htell, List.any_cons, ← hdelivered]
    cases closers listener <;> cases listeners.any closers <;>
      simp only [Bool.false_eq_true, if_true, if_false, Bool.or_true, Bool.or_false]
    · rw [hclose s]
    · rw [hclose s.close, hidem]

/-- What an event leaves that is told to the listeners. -/
theorem Tidy.decode (h : s.Tidy cfg) (name : EventName) (data : Option Parsed) (receivedAt : ℤ)
    (closers : ℕ → Bool) :
    (s.decode name data receivedAt closers).Tidy cfg ∧
    (s.decode name data receivedAt closers).created = s.created ∧
    (s.decode name data receivedAt closers).armed = s.armed ∧
    (s.decode name data receivedAt closers).consecutiveFailures = s.consecutiveFailures ∧
    (s.decode name data receivedAt closers).halted = s.halted ∧
    ((s.decode name data receivedAt closers).closed = false →
      (s.decode name data receivedAt closers).reconnectTimer = s.reconnectTimer ∧ s.closed = false) ∧
    (s.decode name data receivedAt closers).delivered = s.delivered ++
      ((toStreamEvent name data receivedAt).map fun event => s.listeners.map (·, event)).getD [] := by
  unfold EventStream.decode
  cases toStreamEvent name data receivedAt with
  | none => exact ⟨h, rfl, rfl, rfl, rfl, fun hopen => ⟨rfl, hopen⟩, by simp⟩
  | some event =>
    dsimp only
    rw [foldl_tell]
    split_ifs
    · have htidy := h.close
      refine ⟨⟨htidy.pending, htidy.current, htidy.idle, htidy.ended, htidy.waiting, htidy.failures,
        htidy.factory, htidy.nodup⟩, close_created, close_armed, close_failures, close_halted,
        fun hopen => ?_, rfl⟩
      have hclosed : s.close.closed = false := hopen
      rw [close_closed] at hclosed
      cases hclosed
    · exact ⟨⟨h.pending, h.current, h.idle, h.ended, h.waiting, h.failures, h.factory, h.nodup⟩,
        rfl, rfl, rfl, rfl, fun hopen => ⟨rfl, hopen⟩, rfl⟩

/-- A stream that is over creates no source, and stays over. -/
theorem Tidy.step_over (h : s.Tidy cfg) (op : StreamOp) (hover : s.halted = true ∨ s.closed = true) :
    (s.step cfg op).created = s.created ∧
      ((s.step cfg op).halted = true ∨ (s.step cfg op).closed = true) := by
  obtain ⟨hcurrent, -⟩ := h.ended hover
  cases op with
  | opened source closes =>
    rw [show s.step cfg (.opened source closes) = s from if_pos (by simp [hcurrent])]
    exact ⟨rfl, hover⟩
  | error source reports closes =>
    rw [show s.step cfg (.error source reports closes) = s from if_pos (by simp [hcurrent])]
    exact ⟨rfl, hover⟩
  | timer timer closes =>
    rw [show s.step cfg (.timer timer closes) = s.fire cfg timer closes from rfl]
    rcases h.fire_cases timer closes with hsame | ⟨hclosed, hfire⟩ | ⟨htimer, hopen, -⟩
    · rw [hsame]
      exact ⟨rfl, hover⟩
    · rw [hfire]
      exact ⟨rfl, Or.inr hclosed⟩
    · have hrunning := (h.waiting (by simp [htimer]) hopen).2
      simp [hrunning, hopen] at hover
  | message source name data receivedAt closers =>
    obtain ⟨-, hcreated, -, -, hhalted, hclosed, -⟩ := h.decode name data receivedAt closers
    refine ⟨hcreated, hover.imp (fun hh => hhalted.trans hh) fun hc => ?_⟩
    by_contra hopen
    have hrunning : (s.decode name data receivedAt closers).closed = false := eq_false_of_ne_true hopen
    rw [hc] at hclosed
    cases (hclosed hrunning).2
  | close => exact ⟨close_created, Or.inr close_closed⟩
  | subscribe listener =>
    unfold EventStream.step
    dsimp only
    split_ifs <;> exact ⟨rfl, hover⟩
  | unsubscribe listener => exact ⟨rfl, hover⟩

end EventStream

/-! ## Settings -/

/-- The settings for which the delays keep their bounds: a base of zero must not
    be doubled more than 1023 times. -/
structure Settings.Sane (cfg : Settings) : Prop where
  failures : Number.finite 1 ≤ cfg.maxConsecutiveFailures
  backoff : cfg.baseBackoffMs ≤ cfg.maxBackoffMs
  base : Number.finite 0 ≤ cfg.baseBackoffMs
  zero : cfg.baseBackoffMs = .finite 0 → cfg.maxConsecutiveFailures ≤ .finite 1025

theorem Settings.Sane.doubles {cfg : Settings} (h : cfg.Sane) {n : ℕ}
    (hn : ¬cfg.maxConsecutiveFailures ≤ .finite n) : cfg.baseBackoffMs.Doubles (n - 1) := by
  have hbase := h.base
  have hzero := h.zero
  cases hb : cfg.baseBackoffMs with
  | nan | negInfinity =>
    rw [hb] at hbase
    exact hbase.elim
  | infinity => trivial
  | finite x =>
    rw [hb] at hbase hzero
    have hx : 0 ≤ x := hbase
    rcases hx.lt_or_eq with hpos | rfl
    · exact Or.inl hpos
    · refine Or.inr ⟨rfl, ?_⟩
      by_contra hmany
      have hlarge : (1025 : ℚ) ≤ n := by
        have hle : 1025 ≤ n := by omega
        exact_mod_cast hle
      exact hn (Number.le_of_le_of_le (hzero rfl) hlarge)

/-! ## Runs -/

/-- The stream, and where the sources and the delays were at the last `open`
    event, or at the start. -/
structure Watched where
  s : EventStream
  createdAt : ℕ
  armedAt : ℕ

namespace Watched

variable (cfg : Settings)

/-- The current source opens. -/
def Opens (w : Watched) : StreamOp → Bool
  | .opened source _ => w.s.current = some source
  | _ => false

def next (w : Watched) (op : StreamOp) : Watched where
  s := w.s.step cfg op
  createdAt := if w.Opens op then w.s.created else w.createdAt
  armedAt := if w.Opens op then w.s.armed.length else w.armedAt

/-- After the steps `ops`. -/
def after (ops : List StreamOp) : Watched :=
  run (next cfg) ⟨start cfg, (start cfg).created, 0⟩ ops

/-- The sources created since the last `open` event, or since the first one. -/
def made (w : Watched) : ℕ := w.s.created - w.createdAt

/-- The delays since the last `open` event. -/
def delays (w : Watched) : List Number := w.s.armed.drop w.armedAt

/-- What is promised of a state. -/
structure Promised (w : Watched) : Prop where
  one : w.s.live.length ≤ 1
  few : ¬cfg.maxConsecutiveFailures ≤ .finite w.made
  ended : w.s.halted = true ∨ w.s.closed = true → w.s.live = [] ∧ w.s.state = .closed
  bounds : ∀ d ∈ w.delays, cfg.baseBackoffMs ≤ d ∧ d ≤ cfg.maxBackoffMs
  sorted : w.delays.Pairwise (· ≤ ·)

/-- What is promised of a step: a stream that is over creates no source and
    stays so, and a message of the current source reaches everybody once. -/
structure Delivers (w : Watched) (op : StreamOp) : Prop where
  ended : w.s.halted = true ∨ w.s.closed = true →
    (w.next cfg op).s.created = w.s.created ∧
      ((w.next cfg op).s.halted = true ∨ (w.next cfg op).s.closed = true)
  once : ∀ source name data receivedAt closers event,
    op = .message source name data receivedAt closers → w.s.current = some source →
    toStreamEvent name data receivedAt = some event →
    w.s.listeners.Nodup ∧
      (w.next cfg op).s.delivered = w.s.delivered ++ w.s.listeners.map (·, event)

/-- What holds after any steps. -/
structure Kept (w : Watched) : Prop where
  tidy : w.s.Tidy cfg
  created : w.createdAt ≤ w.s.created
  armed : w.armedAt ≤ w.s.armed.length
  made : w.made ≤ w.s.consecutiveFailures
  behind : w.s.reconnectTimer ≠ none → w.s.closed = false → w.made + 1 ≤ w.s.consecutiveFailures
  few : ¬cfg.maxConsecutiveFailures ≤ .finite w.made
  bounds : ∀ d ∈ w.delays, cfg.baseBackoffMs ≤ d ∧ d ≤ cfg.maxBackoffMs
  last : w.s.halted = false → ∀ d ∈ w.delays, d ≤ cfg.delay w.s.consecutiveFailures
  sorted : w.delays.Pairwise (· ≤ ·)

variable {cfg} {w : Watched} {op : StreamOp}

theorem Kept.promised (h : w.Kept cfg) : w.Promised cfg where
  one := by
    cases hcurrent : w.s.current with
    | none => simp [h.tidy.idle hcurrent]
    | some source => simp [(h.tidy.current source hcurrent).1]
  few := h.few
  ended hover := by
    obtain ⟨hcurrent, hstate⟩ := h.tidy.ended hover
    exact ⟨h.tidy.idle hcurrent, hstate⟩
  bounds := h.bounds
  sorted := h.sorted

/-- A step that creates no source, arms no timer and counts no failure. -/
theorem Kept.quiet (h : w.Kept cfg) {s : EventStream} (htidy : s.Tidy cfg)
    (hcreated : s.created = w.s.created) (harmed : s.armed = w.s.armed)
    (hfailures : s.consecutiveFailures = w.s.consecutiveFailures) (hhalted : s.halted = w.s.halted)
    (htimer : s.closed = false → s.reconnectTimer = none ∨
      s.reconnectTimer = w.s.reconnectTimer ∧ w.s.closed = false) :
    ({ w with s } : Watched).Kept cfg := by
  have hmade : ({ w with s } : Watched).made = w.made := congrArg (· - w.createdAt) hcreated
  have hdelays : ({ w with s } : Watched).delays = w.delays := congrArg (List.drop w.armedAt) harmed
  refine ⟨htidy, by simpa [hcreated] using h.created, by simpa [harmed] using h.armed, ?_, ?_, ?_, ?_,
    ?_, ?_⟩
  · rw [hmade]
    exact h.made.trans_eq hfailures.symm
  · intro hne hopen
    rw [hmade]
    rcases htimer hopen with hnone | ⟨hsame, hopen'⟩
    · exact absurd hnone hne
    · exact (h.behind (fun hn => hne (hsame.trans hn)) hopen').trans_eq hfailures.symm
  · rw [hmade]
    exact h.few
  · rw [hdelays]
    exact h.bounds
  · rw [hdelays]
    show s.halted = false → ∀ d ∈ w.delays, d ≤ cfg.delay s.consecutiveFailures
    rw [hhalted, hfailures]
    exact h.last
  · rw [hdelays]
    exact h.sorted

/-- A source opens. -/
theorem Kept.opens (h : w.Kept cfg) (hmax : Number.finite 1 ≤ cfg.maxConsecutiveFailures)
    {source : ℕ} (hcurrent : w.s.current = some source) (closes : Bool) :
    (w.next cfg (.opened source closes)).Kept cfg := by
  obtain ⟨htidy, hfailures, hcreated, harmed, htimer⟩ := h.tidy.onOpen hmax hcurrent closes
  have hopens : w.Opens (.opened source closes) = true := by simp [Opens, hcurrent]
  have hstart : ¬cfg.maxConsecutiveFailures ≤ .finite (0 : ℕ) := by
    intro hle
    exact absurd (Number.le_of_le_of_le hmax hle) (by decide)
  have hnext : w.next cfg (.opened source closes) =
      ⟨w.s.onOpen source closes, w.s.created, w.s.armed.length⟩ := by
    simp [Watched.next, hopens, EventStream.step]
  rw [hnext]
  generalize w.s.onOpen source closes = s at *
  have hmade : (⟨s, w.s.created, w.s.armed.length⟩ : Watched).made = 0 := by simp [Watched.made, hcreated]
  have hdelays : (⟨s, w.s.created, w.s.armed.length⟩ : Watched).delays = [] := by
    simp [Watched.delays, harmed]
  refine ⟨htidy, hcreated.ge, (congrArg List.length harmed).ge, ?_, fun hne hopen => ?_, ?_, ?_, ?_, ?_⟩
  · rw [hmade]
    exact Nat.zero_le _
  · exact absurd (htimer hopen) hne
  · rw [hmade]
    exact hstart
  · simp [hdelays]
  · simp [hdelays]
  · simp [hdelays]

/-- A source fails. -/
theorem Kept.fails (hcfg : cfg.Sane) (h : w.Kept cfg) {source : ℕ}
    (hcurrent : w.s.current = some source) (closes : Bool) :
    ({ w with s := ({ w.s with
      live := []
      current := none
      consecutiveFailures := w.s.consecutiveFailures + 1 } : EventStream).failed cfg closes } :
      Watched).Kept cfg := by
  have hrunning := h.tidy.running hcurrent
  obtain ⟨htidy, hcases, hcreated, hfailures, -⟩ :=
    (h.tidy.stopped hcurrent (w.s.consecutiveFailures + 1)).failed hrunning
      (h.tidy.factory hrunning.1) h.tidy.nodup closes
  generalize ({ w.s with
    live := []
    current := none
    consecutiveFailures := w.s.consecutiveFailures + 1 } : EventStream).failed cfg closes = s at *
  dsimp only at hcases hcreated hfailures
  have hmade : ({ w with s } : Watched).made = w.made := congrArg (· - w.createdAt) hcreated
  have hbehind : w.made + 1 ≤ s.consecutiveFailures := by
    rw [hfailures]
    exact Nat.succ_le_succ h.made
  have hlast := h.last hrunning.1
  refine ⟨htidy, h.created.trans_eq hcreated.symm, ?_, ?_, fun _ _ => ?_, ?_, ?_, ?_, ?_⟩
  · rcases hcases with ⟨-, harmed, -⟩ | ⟨-, harmed⟩
    · exact h.armed.trans_eq (congrArg List.length harmed).symm
    · have hlen := h.armed
      simp only [harmed, List.length_append]
      omega
  · rw [hmade]
    exact (Nat.le_succ _).trans hbehind
  · rw [hmade]
    exact hbehind
  · rw [hmade]
    exact h.few
  all_goals
    rcases hcases with ⟨hmany, harmed, -⟩ | ⟨hmore, harmed⟩
    · have hsame : ({ w with s } : Watched).delays = w.delays :=
        congrArg (List.drop w.armedAt) harmed
      rw [hsame]
      first
        | exact h.bounds
        | exact h.sorted
        | exact fun hhalted => absurd (hfailures ▸ hmany) (htidy.failures hhalted)
    have hmoreDelays : ({ w with s } : Watched).delays =
        w.delays ++ [cfg.delay (w.s.consecutiveFailures + 1)] := by
      simp only [Watched.delays, harmed]
      exact List.drop_append_of_le_length h.armed
    have hdoubles := hcfg.doubles hmore
    have hnew := Number.backoff_bounds hdoubles hcfg.backoff
    have hstep : ∀ d ∈ w.delays, d ≤ cfg.delay (w.s.consecutiveFailures + 1) := fun d hd =>
      Number.le_of_le_of_le (hlast d hd)
        (Number.backoff_mono hdoubles hcfg.backoff (Nat.sub_le_sub_right (Nat.le_succ _) 1))
    rw [hmoreDelays]
  · intro d hd
    rcases List.mem_append.1 hd with hd | hd
    · exact h.bounds d hd
    · rw [List.mem_singleton.1 hd]
      exact hnew
  · intro _ d hd
    dsimp only
    rw [hfailures]
    rcases List.mem_append.1 hd with hd | hd
    · exact hstep d hd
    · rw [List.mem_singleton.1 hd]
      exact Number.backoff_mono hdoubles hcfg.backoff le_rfl
  · rw [List.pairwise_append]
    refine ⟨h.sorted, List.pairwise_singleton .., fun d hd d' hd' => ?_⟩
    rw [List.mem_singleton.1 hd']
    exact hstep d hd

/-- A timer goes off. -/
theorem Kept.fires (h : w.Kept cfg) (timer : ℕ) (closes : Bool) :
    ({ w with s := w.s.fire cfg timer closes } : Watched).Kept cfg := by
  rcases h.tidy.fire_cases timer closes with hsame | ⟨hclosed, hfire⟩ | ⟨htimer, hopen, hfire⟩
  · rw [hsame]
    exact h
  · rw [hfire]
    refine h.quiet ⟨rfl, fun source hs => ?_, h.tidy.idle, h.tidy.ended, fun hne => absurd rfl hne,
      h.tidy.failures, h.tidy.factory, h.tidy.nodup⟩ rfl rfl rfl rfl fun _ => Or.inl rfl
    exact ⟨(h.tidy.current source hs).1, rfl⟩
  · have hwaiting := h.tidy.waiting (by simp [htimer]) hopen
    have hbehind := h.behind (by simp [htimer]) hopen
    have hmade : w.s.created + 1 - w.createdAt = w.made + 1 := by
      have hle := h.created
      unfold Watched.made
      omega
    rw [hfire]
    refine ⟨⟨rfl, ?_, nofun, fun hover => ?_, fun hne => absurd rfl hne, h.tidy.failures,
      h.tidy.factory, h.tidy.nodup⟩, h.created.trans (Nat.le_succ _), h.armed, ?_,
      fun hne => absurd rfl hne, ?_, h.bounds, h.last, h.sorted⟩
    · rintro source hs
      cases hs
      exact ⟨rfl, rfl⟩
    · simp [hwaiting.2, hopen] at hover
    · show w.s.created + 1 - w.createdAt ≤ _
      rw [hmade]
      exact hbehind
    · show ¬cfg.maxConsecutiveFailures ≤ .finite (w.s.created + 1 - w.createdAt : ℕ)
      rw [hmade]
      intro hle
      refine h.tidy.failures hwaiting.2 (Number.le_of_le_of_le hle ?_)
      exact Number.finite_le.2 (by exact_mod_cast hbehind)

theorem next_of_not_opens (hop : w.Opens op = false) :
    w.next cfg op = { w with s := w.s.step cfg op } := by
  simp [Watched.next, hop]

/-- **One step** keeps the bounds. -/
theorem Kept.next (hcfg : cfg.Sane) (h : w.Kept cfg) (op : StreamOp) : (w.next cfg op).Kept cfg := by
  cases op with
  | opened source closes =>
    by_cases hcurrent : w.s.current = some source
    · exact h.opens hcfg.failures hcurrent closes
    · rw [next_of_not_opens (by simp [Opens, hcurrent]),
        show w.s.step cfg (.opened source closes) = w.s from if_pos hcurrent]
      exact h
  | error source reports closes =>
    rw [next_of_not_opens rfl]
    rcases h.tidy.onError_cases source reports closes with hsame | ⟨hcurrent, hclose | hfail⟩
    · rw [show w.s.step cfg (.error source reports closes) = w.s from hsame]
      exact h
    · rw [show w.s.step cfg (.error source reports closes) = _ from hclose]
      refine h.quiet (h.tidy.lost hcurrent).close ?_ ?_ ?_ ?_ fun hopen => ?_
      · exact EventStream.close_created
      · exact EventStream.close_armed
      · exact EventStream.close_failures
      · exact EventStream.close_halted
      · rw [EventStream.close_closed] at hopen
        cases hopen
    · rw [show w.s.step cfg (.error source reports closes) = _ from hfail]
      exact h.fails hcfg hcurrent closes
  | timer timer closes =>
    rw [next_of_not_opens rfl]
    exact h.fires timer closes
  | message source name data receivedAt closers =>
    rw [next_of_not_opens rfl]
    obtain ⟨htidy, hcreated, harmed, hfailures, hhalted, htimer, -⟩ :=
      h.tidy.decode name data receivedAt closers
    exact h.quiet htidy hcreated harmed hfailures hhalted fun hopen => Or.inr (htimer hopen)
  | close =>
    rw [next_of_not_opens rfl]
    refine h.quiet h.tidy.close EventStream.close_created EventStream.close_armed
      EventStream.close_failures EventStream.close_halted fun hopen => ?_
    rw [show (w.s.step cfg .close).closed = true from EventStream.close_closed] at hopen
    cases hopen
  | subscribe listener =>
    rw [next_of_not_opens rfl]
    unfold EventStream.step
    dsimp only
    split_ifs with hmem
    · exact h
    · have ht := h.tidy
      refine h.quiet ⟨ht.pending, ht.current, ht.idle, ht.ended, ht.waiting, ht.failures, ht.factory, ?_⟩
        rfl rfl rfl rfl fun hopen => Or.inr ⟨rfl, hopen⟩
      exact List.Nodup.append ht.nodup (List.nodup_singleton _) (by simpa using hmem)
  | unsubscribe listener =>
    rw [next_of_not_opens rfl]
    have ht := h.tidy
    exact h.quiet ⟨ht.pending, ht.current, ht.idle, ht.ended, ht.waiting, ht.failures, ht.factory,
      ht.nodup.filter _⟩ rfl rfl rfl rfl fun hopen => Or.inr ⟨rfl, hopen⟩

theorem Kept.delivers (h : w.Kept cfg) (op : StreamOp) : w.Delivers cfg op where
  ended := h.tidy.step_over op
  once := by
    rintro source name data receivedAt closers event rfl hcurrent hevent
    rw [next_of_not_opens rfl]
    refine ⟨h.tidy.nodup, ?_⟩
    have hdelivered := (h.tidy.decode name data receivedAt closers).2.2.2.2.2.2
    rwa [hevent, Option.map_some, Option.getD_some] at hdelivered

theorem kept_start (hcfg : cfg.Sane) : (after cfg []).Kept cfg := by
  have hzero : ¬cfg.maxConsecutiveFailures ≤ .finite (0 : ℕ) := by
    intro hle
    exact absurd (Number.le_of_le_of_le hcfg.failures hle) (by decide)
  have htidy : (start cfg).Tidy cfg ∧ (start cfg).reconnectTimer = none ∧ (start cfg).armed = [] ∧
      (start cfg).consecutiveFailures = 0 := by
    unfold start
    cases hfactory : cfg.factory with
    | true =>
      rw [EventStream.connect_eq (by rfl) ⟨rfl, rfl⟩ hfactory]
      refine ⟨⟨rfl, ?_, nofun, nofun, fun hne => absurd rfl hne, fun _ => hzero, fun _ => hfactory,
        List.nodup_nil⟩, rfl, rfl, rfl⟩
      rintro source hs
      cases hs
      exact ⟨rfl, rfl⟩
    | false =>
      unfold EventStream.connect
      simp only [Bool.not_false, Bool.or_true]
      exact ⟨⟨rfl, nofun, fun _ => rfl, fun _ => ⟨rfl, rfl⟩, fun hne => absurd rfl hne, nofun, nofun,
        List.nodup_nil⟩, rfl, rfl, rfl⟩
  obtain ⟨htidy, htimer, harmed, hfailures⟩ := htidy
  have hmade : (after cfg []).made = 0 := Nat.sub_self _
  have hdelays : (after cfg []).delays = [] := by
    show (start cfg).armed.drop 0 = []
    rw [harmed, List.drop_nil]
  refine ⟨htidy, le_rfl, Nat.zero_le _, ?_, fun hne => absurd htimer hne, ?_, ?_, ?_, ?_⟩
  · rw [hmade]
    exact Nat.zero_le _
  · rw [hmade]
    exact hzero
  · simp [hdelays]
  · simp [hdelays]
  · simp [hdelays]

theorem after_append (ops more : List StreamOp) :
    after cfg (ops ++ more) = run (Watched.next cfg) (after cfg ops) more :=
  List.foldl_append

/-- A stream that is over stays over, and creates no source any more. -/
theorem Kept.stays_over (hcfg : cfg.Sane) (h : w.Kept cfg) (hover : w.s.halted = true ∨ w.s.closed = true)
    (more : List StreamOp) :
    (run (Watched.next cfg) w more).s.created = w.s.created ∧
      ((run (Watched.next cfg) w more).s.halted = true ∨
        (run (Watched.next cfg) w more).s.closed = true) := by
  induction more generalizing w with
  | nil => exact ⟨rfl, hover⟩
  | cons op more ih =>
    obtain ⟨hcreated, hover'⟩ := (h.delivers op).ended hover
    obtain ⟨hrest, hlast⟩ := ih (h.next hcfg op) hover'
    exact ⟨hrest.trans hcreated, hlast⟩

/-- **The bounds of the event stream**, over any steps and any that follow. -/
theorem stream_bounded (cfg : Settings) (hcfg : cfg.Sane) (ops : List StreamOp) :
    (after cfg ops).Promised cfg ∧
    ((after cfg ops).s.halted = true ∨ (after cfg ops).s.closed = true →
      ∀ more, (after cfg (ops ++ more)).s.created = (after cfg ops).s.created) ∧
    ∀ source name data receivedAt closers event, (after cfg ops).s.current = some source →
      toStreamEvent name data receivedAt = some event →
      (after cfg ops).s.listeners.Nodup ∧
        (after cfg (ops ++ [.message source name data receivedAt closers])).s.delivered =
          (after cfg ops).s.delivered ++ (after cfg ops).s.listeners.map (·, event) := by
  have hkept : (after cfg ops).Kept cfg :=
    run_invariant (P := fun _ => True) (fun _ _ _ => trivial) (kept_start hcfg)
      (fun _ op _ (h : Kept cfg _) => h.next hcfg op) ops trivial
  refine ⟨hkept.promised, fun hover more => ?_, ?_⟩
  · rw [after_append]
    exact (hkept.stays_over hcfg hover more).1
  · intro source name data receivedAt closers event hcurrent hevent
    rw [after_append]
    exact (hkept.delivers _).once source name data receivedAt closers event rfl hcurrent hevent

end Watched

namespace Scripted

/-- A source that fails, its timer, and the next that fails. -/
def twoFailures : List StreamOp := [.error 0 false false, .timer 0 false, .error 1 false false]

def usual : Settings := ⟨true, .finite 3, .finite 1000, .finite 30000⟩

/-- Delays that are negative. -/
def negative : Settings := ⟨true, .finite 3, .finite (-1000), .finite 1000⟩

end Scripted

open Scripted in
theorem stream_bounded_usual : (Watched.after usual twoFailures).delays = [.finite 1000, .finite 2000] ∧
    (Watched.after usual twoFailures).Promised usual :=
  ⟨by decide +kernel, (Watched.stream_bounded usual ⟨by decide, by decide, by decide, nofun⟩ _).1⟩

open Scripted in
/-- A negative base shrinks when it is doubled. -/
theorem stream_shrinks : negative.baseBackoffMs ≤ negative.maxBackoffMs ∧
    ¬(Watched.after negative twoFailures).Promised negative := by
  refine ⟨by decide, fun h => ?_⟩
  have hdelays : (Watched.after negative twoFailures).delays = [.finite (-1000), .finite (-2000)] := by
    decide +kernel
  have hbounds := h.bounds (.finite (-2000)) (by rw [hdelays]; decide)
  exact absurd hbounds.1 (by decide)

end Events

end SessionBroker
