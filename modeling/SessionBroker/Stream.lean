/-
  The event stream of the React SDK (`events.ts`).

  * A step is an event of a source, a timer that goes off, or a call of the app;
    the callbacks that it runs may call `close`, as the step says;
  * the stream carries what the browser knows: the sources that were created,
    those that nobody has closed, and the timers that are armed.  `delivered`
    and `armed` are logs;
  * `stream_bounded`: what holds after any steps.
-/
import SessionBroker.Lib.Number
import SessionBroker.Lib.Run
import SessionBroker.Types

namespace SessionBroker

open Js Runs

namespace Events

/-! ## Messages -/

/-- A member of a payload: a string, or anything else. -/
inductive Member where
  | text (s : String)
  | other
deriving DecidableEq, Repr

/-- What `JSON.parse` gives, if the data is a string of JSON: an object, or
    anything else. -/
inductive Parsed where
  | object (members : List (String × Member))
  | other
deriving DecidableEq, Repr

inductive EventName where
  | sessionKilled
  | custodyChanged
deriving DecidableEq, Repr

/-- `SessionStreamEvent`. -/
inductive StreamEvent where
  | sessionKilled (sid : String) (reason : KillReason) (receivedAt : ℤ)
  | custodyChanged (sid : String) (custody : CustodyStatus) (receivedAt : ℤ)
deriving DecidableEq, Repr

def reasons : List (String × KillReason) :=
  [("logged_out", .loggedOut), ("upstream_revoked", .upstreamRevoked), ("admin_revoked", .adminRevoked)]

def custodies : List (String × CustodyStatus) := [("ok", .ok), ("degraded", .degraded), ("dead", .dead)]

/-- `value[key]`, if it is a string: the last of several members counts. -/
def textOf (members : List (String × Member)) (key : String) : Option String :=
  match members.reverse.lookup key with
  | some (.text s) => some s
  | _ => none

/-- `toStreamEvent`, on data that parses or does not. -/
def toStreamEvent (name : EventName) (data : Option Parsed) (receivedAt : ℤ) : Option StreamEvent :=
  match data with
  | none | some .other => none
  | some (.object members) => do
    let sid ← textOf members "sid"
    match name with
    | .sessionKilled =>
      let reason ← (textOf members "reason").bind (reasons.lookup ·)
      return .sessionKilled sid reason receivedAt
    | .custodyChanged =>
      let custody ← (textOf members "custody").bind (custodies.lookup ·)
      return .custodyChanged sid custody receivedAt

/-! ## The stream -/

/-- `SessionEventStreamOptions`, and whether there is a factory. -/
structure Settings where
  factory : Bool
  maxConsecutiveFailures : Number
  baseBackoffMs : Number
  maxBackoffMs : Number
deriving DecidableEq, Repr

inductive StreamState where
  | connecting
  | open
  | closed
deriving DecidableEq, Repr

/-- The variables of `startSessionEventStream`, and what the browser knows. -/
structure EventStream where
  state : StreamState
  halted : Bool
  closed : Bool
  consecutiveFailures : ℕ
  current : Option ℕ
  reconnectTimer : Option ℕ
  listeners : List ℕ
  /-- The sources created so far; they are numbered from 0. -/
  created : ℕ
  /-- The sources that nobody has closed. -/
  live : List ℕ
  /-- The timers that are armed. -/
  pending : List ℕ
  /-- The delays of the timers so far. -/
  armed : List Number
  delivered : List (ℕ × StreamEvent)
deriving DecidableEq, Repr

/-- `close` of a source. -/
def EventStream.closeSource (s : EventStream) (source : ℕ) : EventStream :=
  { s with live := s.live.filter (· ≠ source) }

def EventStream.clearReconnectTimer (s : EventStream) : EventStream :=
  match s.reconnectTimer with
  | none => s
  | some timer => { s with reconnectTimer := none, pending := s.pending.filter (· ≠ timer) }

/-- `close`, whose listeners can only call `close` again. -/
def EventStream.close (s : EventStream) : EventStream :=
  if s.closed then s
  else
    let s := { s with closed := true }.clearReconnectTimer
    let s := match s.current with
      | none => s
      | some source => s.closeSource source
    { s with current := none, state := .closed }

/-- `setState`; a listener that hears of it may call `close`. -/
def EventStream.setState (s : EventStream) (next : StreamState) (closes : Bool) : EventStream :=
  if s.state = next then s
  else if closes then { s with state := next }.close else { s with state := next }

variable (cfg : Settings)

/-- `connect`. -/
def EventStream.connect (s : EventStream) (closes : Bool) : EventStream :=
  let s := { s with reconnectTimer := none }
  if s.closed || s.halted || !cfg.factory then s
  else
    let s := s.setState .connecting closes
    { s with created := s.created + 1, live := s.live ++ [s.created], current := some s.created }

/-- `onOpen`. -/
def EventStream.onOpen (s : EventStream) (source : ℕ) (closes : Bool) : EventStream :=
  if s.current ≠ some source then s
  else { s with consecutiveFailures := 0 }.setState .open closes

/-- The delay before the next source. -/
def Settings.delay (consecutiveFailures : ℕ) : Number :=
  cfg.baseBackoffMs.backoff cfg.maxBackoffMs (consecutiveFailures - 1)

/-- The end of `onError`, with the failure counted. -/
def EventStream.failed (s : EventStream) (closes : Bool) : EventStream :=
  if cfg.maxConsecutiveFailures ≤ .finite s.consecutiveFailures then
    { s with halted := true }.setState .closed closes
  else
    let s := s.setState .connecting closes
    { s with
      reconnectTimer := some s.armed.length
      pending := s.pending ++ [s.armed.length]
      armed := s.armed ++ [cfg.delay s.consecutiveFailures] }

/-- `onError`; the callback of the app and a listener of the state may call
    `close`. -/
def EventStream.onError (s : EventStream) (source : ℕ) (reports closes : Bool) : EventStream :=
  if s.current ≠ some source then s
  else
    let s := { s.closeSource source with current := none }
    let s := if reports then s.close else s
    if s.closed then s
    else { s with consecutiveFailures := s.consecutiveFailures + 1 }.failed cfg closes

/-- A timer goes off. -/
def EventStream.fire (s : EventStream) (timer : ℕ) (closes : Bool) : EventStream :=
  if timer ∈ s.pending then
    { s with pending := s.pending.filter (· ≠ timer) }.connect cfg closes
  else s

/-- One listener hears of an event. -/
def EventStream.tell (event : StreamEvent) (closers : ℕ → Bool) (s : EventStream) (listener : ℕ) :
    EventStream :=
  let s := { s with delivered := s.delivered ++ [(listener, event)] }
  if closers listener then s.close else s

/-- `decode`; some of the listeners may call `close`. -/
def EventStream.decode (s : EventStream) (name : EventName) (data : Option Parsed) (receivedAt : ℤ)
    (closers : ℕ → Bool) : EventStream :=
  match toStreamEvent name data receivedAt with
  | none => s
  | some event => s.listeners.foldl (tell event closers) s

/-- `startSessionEventStream`. -/
def start : EventStream :=
  EventStream.connect cfg
    { state := if cfg.factory then .connecting else .closed
      halted := !cfg.factory
      closed := false
      consecutiveFailures := 0
      current := none
      reconnectTimer := none
      listeners := []
      created := 0
      live := []
      pending := []
      armed := []
      delivered := [] } false

/-! ## Steps -/

inductive StreamOp where
  | opened (source : ℕ) (closes : Bool)
  | error (source : ℕ) (reports closes : Bool)
  | timer (timer : ℕ) (closes : Bool)
  | message (source : ℕ) (name : EventName) (data : Option Parsed) (receivedAt : ℤ) (closers : ℕ → Bool)
  | close
  | subscribe (listener : ℕ)
  | unsubscribe (listener : ℕ)

/-- A source that has sent a message is not looked at. -/
def EventStream.step (s : EventStream) : StreamOp → EventStream
  | .opened source closes => s.onOpen source closes
  | .error source reports closes => s.onError cfg source reports closes
  | .timer timer closes => s.fire cfg timer closes
  | .message _ name data receivedAt closers => s.decode name data receivedAt closers
  | .close => s.close
  | .subscribe listener =>
    if listener ∈ s.listeners then s else { s with listeners := s.listeners ++ [listener] }
  | .unsubscribe listener => { s with listeners := s.listeners.filter (· ≠ listener) }

end Events

end SessionBroker
