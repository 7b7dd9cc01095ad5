/-
  `GET /session/events` (`http/events.rs`): one broadcast of all session events,
  filtered down to one session for each stream.

  * `subscriber`: the checks of the handler; the subscription is a step of its own,
    and what is announced between the two is not heard;
  * `Hub`: the session map with its streams.  A stream that nobody reads any more
    is one that is never polled again;
  * `fanout_delivers`: what a stream has written, after any steps;
  * `client_hears_kill`: what the SDK makes of it.
-/
import SessionBroker.Lib.Broadcast
import SessionBroker.MetaCookie
import SessionBroker.Stream
import SessionBroker.UserToken

namespace SessionBroker

open Broadcast Runs

/-! ## The wire -/

def KillReason.text : KillReason → String
  | loggedOut => "logged_out"
  | upstreamRevoked => "upstream_revoked"
  | adminRevoked => "admin_revoked"

/-- An object of JSON whose values are strings. -/
def jsonObject (members : List (String × String)) : String :=
  "\x7b" ++ ",".intercalate (members.map fun p => jsonString p.1 ++ ":" ++ jsonString p.2) ++ "\x7d"

namespace Fanout

/-- `payload`: `serde_json` sorts the keys. -/
def payload : SessionEvent → List (String × String)
  | .sessionKilled sid reason => [("reason", reason.text), ("sid", sid.id)]
  | .custodyChanged sid custody => [("custody", custody.text), ("sid", sid.id)]

/-- An event on the wire. -/
structure Frame where
  event : String
  data : String
deriving DecidableEq, Repr

/-- What the stream of `sid` makes of an event. -/
def frame (sid : Sid) (event : SessionEvent) : Option Frame :=
  if event.sid ≠ sid then none else some ⟨event.name, jsonObject (payload event)⟩

/-! ## The handler -/

/-- `CHANNEL_CAPACITY`. -/
def channelCapacity : ℕ := 64

/-- One request: the first value of two headers, the `Cookie` headers, and the
    clock. -/
structure Request where
  secFetchSite : Option Bytes
  origin : Option Bytes
  cookies : List Bytes
  now : Timestamp
deriving DecidableEq, Repr

/-- What the handler is set up with; `hash` is `TokenHash::of`. -/
structure Env where
  http : HttpConfig
  hash : String → TokenHash

/-- `stream`, up to the subscription: the session it is for. -/
def subscriber (env : Env) (m : SessionMap) (req : Request) : Except ApiError Sid :=
  match requireSameOrigin req.secFetchSite req.origin env.http.origin with
  | .error err => .error err
  | .ok _ =>
    match cookie req.cookies (sessionCookieName env.http.secure) with
    | none => .error (unauthenticated env.http)
    | some value =>
      match m.resolve (env.hash value) req.now with
      | .active sid _ _ | .staleRefreshable sid _ => .ok sid
      | .hardExpired _ reason =>
        .error ⟨.sessionExpired, s!"session expired ({reason.debug})", some env.http.loginUrl⟩
      | _ => .error ⟨.invalidSession, "no live session for this token", some env.http.loginUrl⟩

/-- A stream: the place in the broadcast where it subscribed and the one it is
    at, how many events it was told are gone, and what it wrote. -/
structure Outlet where
  sid : Sid
  since : ℕ
  next : ℕ
  gone : ℕ
  written : List Frame
deriving DecidableEq, Repr

/-- `session_stream`, polled once: the notice of a lag is dropped. -/
def Outlet.poll (s : Outlet) (events : List SessionEvent) : Outlet :=
  let r := recv channelCapacity events s.next
  { s with
    next := r.2
    gone := s.gone + r.1.gone
    written := s.written ++ r.1.values.filterMap (frame s.sid) }

/-- The session map, the requests that have passed the checks, and the streams. -/
structure Hub where
  map : SessionMap
  admitted : List Sid
  streams : List Outlet

inductive Action where
  /-- An operation of the session map. -/
  | call (op : Op)
  | request (req : Request)
  /-- A request that has passed the checks subscribes. -/
  | subscribe (i : ℕ)
  /-- A stream is polled. -/
  | poll (i : ℕ)

/-- The operations of the session map. -/
def Action.calls : Action → List Op
  | call op => [op]
  | request _ | subscribe _ | poll _ => []

namespace Hub

def init (policy : SessionPolicy) : Hub := ⟨.withDurability policy, [], []⟩

def step (env : Env) (hub : Hub) : Action → Hub
  | .call op => { hub with map := hub.map.step op }
  | .request req =>
    match subscriber env hub.map req with
    | .ok sid => { hub with admitted := hub.admitted ++ [sid] }
    | .error _ => hub
  | .subscribe i =>
    match hub.admitted[i]? with
    | none => hub
    | some sid =>
      { hub with
        admitted := hub.admitted.eraseIdx i
        streams := hub.streams ++ [⟨sid, hub.map.events.length, hub.map.events.length, 0, []⟩] }
  | .poll i => { hub with streams := hub.streams.modify i (·.poll hub.map.events) }

end Hub

end Fanout

/-! ## What is announced -/

namespace SessionMap

variable {m : SessionMap}

/-- What a fold of calls that only announce announces. -/
theorem events_foldl {α β : Type*} {f : α → β → α} (map : α → SessionMap)
    (hf : ∀ a b, (map a).events <+: (map (f a b)).events) (a : α) (bs : List β) :
    (map a).events <+: (map (bs.foldl f a)).events :=
  @run_preserves _ _ f (fun a' => (map a).events <+: (map a').events)
    (fun a' b h => h.trans (hf a' b)) a (List.prefix_refl _) bs

theorem events_tombstone (m : SessionMap) (sid : Sid) (now : Timestamp) (reason : KillReason) :
    m.events <+: (m.tombstoneSessionWithReason sid now reason).1.events := by
  unfold tombstoneSessionWithReason
  cases m.sessions sid with
  | none => exact List.prefix_refl _
  | some e =>
    dsimp only
    split_ifs
    · exact List.prefix_append ..
    · exact List.prefix_refl _

/-- **A call only adds to the events.** -/
theorem events_step (m : SessionMap) (op : Op) : m.events <+: (m.step op).events := by
  cases op with
  | create => exact List.prefix_refl _
  | refresh hash token now =>
    rcases m.step_refresh hash token now with h | ⟨sid, e, e', cookies, effects, -, -, -, h⟩
    · rw [h]
    · rw [h, commit_events]
  | tombstone sid reason now => exact m.events_tombstone sid now reason
  | tombstoneByCustody order custody now =>
    change _ <+: (m.tombstoneByCustody order custody now).1.events
    unfold tombstoneByCustody
    refine events_foldl Prod.fst (fun r sid => ?_) (m, 0) _
    exact r.1.events_tombstone sid now .upstreamRevoked
  | setCustodyStatus order custody status =>
    have htouch : m.events <+: (order.foldl (touchCustody custody status) (m, 0, [])).1.events := by
      refine events_foldl Prod.fst (fun r sid => ?_) (m, 0, []) _
      unfold touchCustody
      cases r.1.sessions sid with
      | none => exact List.prefix_refl _
      | some e =>
        dsimp only
        split_ifs <;> exact List.prefix_refl _
    exact htouch.trans (events_foldl id (fun m sid => List.prefix_append ..) _ _)
  | sweep order now =>
    have hvisit : m.events <+: (order.foldl (sweepVisit now) ⟨m, 0, []⟩).map.events := by
      refine events_foldl SweepState.map (fun s sid => ?_) ⟨m, 0, []⟩ _
      unfold sweepVisit
      cases s.map.sessions sid with
      | none => exact List.prefix_refl _
      | some e =>
        dsimp only
        split_ifs
        · exact List.prefix_refl _
        · rw [apply_events]
          exact List.prefix_refl _
    refine hvisit.trans (events_foldl Prod.fst (fun r sid => ?_) (_, 0) _)
    unfold sweepRemove
    cases r.1.sessions sid with
    | none => exact List.prefix_refl _
    | some e =>
      dsimp only
      rw [foldl_indexRemove]
      exact List.prefix_refl _

end SessionMap

namespace Fanout

/-! ## What is written -/

/-- What the stream was handed, in order: it missed as many events as it was
    told, and wrote its own among the others. -/
def Outlet.Faithful (s : Outlet) (events : List SessionEvent) : Prop :=
  ∃ got, Broadcast.Follows events s.since s.next got s.gone ∧ s.written = got.filterMap (frame s.sid)

namespace Outlet.Faithful

variable {s : Outlet} {events events' : List SessionEvent}

theorem grow (h : s.Faithful events) (hp : events <+: events') : s.Faithful events' := by
  obtain ⟨got, hgot, hwritten⟩ := h
  obtain ⟨more, rfl⟩ := hp
  exact ⟨got, hgot.send more, hwritten⟩

theorem poll (h : s.Faithful events) : (s.poll events).Faithful events := by
  obtain ⟨got, hgot, hwritten⟩ := h
  refine ⟨_, hgot.recv channelCapacity, ?_⟩
  rw [List.filterMap_append]
  change s.written ++ _ = List.filterMap (frame s.sid) got ++ _
  rw [hwritten]
  rfl

end Outlet.Faithful

variable {env : Env} {policy : SessionPolicy}

theorem admitted_step (hub : Hub) (action : Action) {sid : Sid}
    (h : sid ∈ (hub.step env action).admitted) :
    sid ∈ hub.admitted ∨ ∃ req, action = .request req ∧ subscriber env hub.map req = .ok sid := by
  cases action with
  | call | poll => exact Or.inl h
  | request req =>
    unfold Hub.step at h
    cases hok : subscriber env hub.map req with
    | error err =>
      simp only [hok] at h
      exact Or.inl h
    | ok sid' =>
      simp only [hok, List.mem_append, List.mem_singleton] at h
      rcases h with h | rfl
      · exact Or.inl h
      · exact Or.inr ⟨req, rfl, hok⟩
  | subscribe i =>
    unfold Hub.step at h
    cases hi : hub.admitted[i]? with
    | none =>
      simp only [hi] at h
      exact Or.inl h
    | some sid' =>
      simp only [hi] at h
      exact Or.inl (List.mem_of_mem_eraseIdx h)

/-- A stream after a step: one that was there, polled or not, or a new one. -/
theorem mem_streams_step {hub : Hub} {action : Action} {s : Outlet}
    (h : s ∈ (hub.step env action).streams) :
    s ∈ hub.streams ∨ (∃ i s', action = .poll i ∧ s' ∈ hub.streams ∧ s = s'.poll hub.map.events) ∨
      ∃ sid ∈ hub.admitted, s = ⟨sid, hub.map.events.length, hub.map.events.length, 0, []⟩ := by
  cases action with
  | call => exact Or.inl h
  | request req =>
    unfold Hub.step at h
    cases hok : subscriber env hub.map req <;> simp only [hok] at h <;> exact Or.inl h
  | subscribe i =>
    unfold Hub.step at h
    cases hi : hub.admitted[i]? with
    | none =>
      simp only [hi] at h
      exact Or.inl h
    | some sid =>
      simp only [hi, List.mem_append, List.mem_singleton] at h
      rcases h with h | rfl
      · exact Or.inl h
      · exact Or.inr (Or.inr ⟨sid, List.mem_of_getElem? hi, rfl⟩)
  | poll i =>
    obtain ⟨j, hj⟩ := List.mem_iff_getElem?.1 h
    unfold Hub.step at hj
    rw [List.getElem?_modify] at hj
    obtain ⟨s', hs', hs⟩ := Option.map_eq_some_iff.1 hj
    have hmem := List.mem_of_getElem? hs'
    split_ifs at hs with hij
    · exact Or.inr (Or.inl ⟨i, s', rfl, hmem, hs.symm⟩)
    · exact Or.inl (hs ▸ hmem)

/-- Only an operation of the session map changes it. -/
theorem map_step (hub : Hub) (action : Action) : (hub.step env action).map =
    run SessionMap.step hub.map action.calls := by
  cases action with
  | call | poll => rfl
  | request req =>
    simp only [Hub.step, Action.calls]
    cases subscriber env hub.map req <;> rfl
  | subscribe i =>
    simp only [Hub.step, Action.calls]
    cases hub.admitted[i]? <;> rfl

theorem map_run (actions : List Action) : (run (Hub.step env) (.init policy) actions).map =
    SessionMap.runs policy (actions.flatMap Action.calls) := by
  induction actions using List.reverseRecOn with
  | nil => rfl
  | append_singleton actions action ih =>
    rw [run_concat, map_step, ih, List.flatMap_append, List.flatMap_singleton, SessionMap.runs,
      SessionMap.runs, run_append]

theorem events_step (hub : Hub) (action : Action) :
    hub.map.events <+: (hub.step env action).map.events := by
  rw [map_step]
  exact SessionMap.events_foldl id (fun m op => m.events_step op) _ _

/-- What every step keeps of the streams. -/
def Hub.Faithful (hub : Hub) : Prop := ∀ s ∈ hub.streams, s.Faithful hub.map.events

theorem Hub.Faithful.step {hub : Hub} (h : hub.Faithful) (action : Action) :
    (hub.step env action).Faithful := by
  intro s hs
  obtain hs | ⟨i, s', -, hs', rfl⟩ | ⟨sid, -, rfl⟩ := mem_streams_step hs
  · exact (h s hs).grow (events_step hub action)
  · exact (h s' hs').poll.grow (events_step hub action)
  · refine Outlet.Faithful.grow ?_ (events_step hub action)
    exact ⟨[], .subscribe _, rfl⟩

/-- The request that a stream was opened for. -/
def Admitted (env : Env) (policy : SessionPolicy) (actions : List Action) (sid : Sid) : Prop :=
  ∃ before req after, actions = before ++ .request req :: after ∧
    subscriber env (run (Hub.step env) (.init policy) before).map req = .ok sid

theorem Admitted.concat {actions : List Action} {sid : Sid} (h : Admitted env policy actions sid)
    (action : Action) : Admitted env policy (actions ++ [action]) sid := by
  obtain ⟨before, req, after, rfl, hok⟩ := h
  exact ⟨before, req, after ++ [action], by simp, hok⟩

theorem admitted_run (actions : List Action) :
    (∀ sid ∈ (run (Hub.step env) (.init policy) actions).admitted, Admitted env policy actions sid) ∧
      ∀ s ∈ (run (Hub.step env) (.init policy) actions).streams, Admitted env policy actions s.sid := by
  induction actions using List.reverseRecOn with
  | nil => exact ⟨(fun sid h => by cases h), fun s h => by cases h⟩
  | append_singleton actions action ih =>
    rw [run_concat]
    constructor
    · intro sid h
      obtain h | ⟨req, rfl, hok⟩ := admitted_step _ _ h
      · exact (ih.1 sid h).concat action
      · exact ⟨actions, req, [], rfl, hok⟩
    · intro s h
      obtain hs | ⟨i, s', -, hs, rfl⟩ | ⟨sid, hsid, rfl⟩ := mem_streams_step h
      · exact (ih.2 s hs).concat action
      · exact (ih.2 s' hs).concat action
      · exact (ih.1 sid hsid).concat action

/-- Every poll comes in time: the broadcast still holds all that waits. -/
def Prompt (hub : Hub) : Action → Prop
  | .poll i => ∀ s ∈ hub.streams[i]?, hub.map.events.length ≤ s.next + channelCapacity
  | _ => True

instance (hub : Hub) : DecidablePred (Prompt hub)
  | .poll i => inferInstanceAs (Decidable (∀ s ∈ hub.streams[i]?, _))
  | .call _ | .request _ | .subscribe _ => inferInstanceAs (Decidable True)

theorem gone_step {hub : Hub} {action : Action} (h : ∀ s ∈ hub.streams, s.gone = 0)
    (hp : Prompt hub action) : ∀ s ∈ (hub.step env action).streams, s.gone = 0 := by
  intro s hs
  cases action with
  | poll i =>
    obtain ⟨j, hj⟩ := List.mem_iff_getElem?.1 hs
    unfold Hub.step at hj
    rw [List.getElem?_modify] at hj
    obtain ⟨s', hs', hs⟩ := Option.map_eq_some_iff.1 hj
    have hgone := h s' (List.mem_of_getElem? hs')
    split_ifs at hs with hij
    · subst hs hij
      exact Nat.add_eq_zero_iff.2 ⟨hgone, (recv_gone_eq_zero_iff ..).2 (hp s' hs')⟩
    · exact hs ▸ hgone
  | call | request | subscribe =>
    obtain hs | ⟨i, s', hi, -⟩ | ⟨sid, -, rfl⟩ := mem_streams_step hs
    · exact h s hs
    · cases hi
    · rfl

theorem gone_run {actions : List Action} (h : Along (Hub.step env) Prompt (.init policy) actions) :
    ∀ s ∈ (run (Hub.step env) (.init policy) actions).streams, s.gone = 0 := by
  have hrun : (fun hub : Hub => ∀ s ∈ hub.streams, s.gone = 0)
      (run (Hub.step env) (.init policy) actions) :=
    along_invariant (fun hub action => gone_step) (fun s hs => by cases hs) h
  exact hrun

theorem faithful_run (policy : SessionPolicy) (actions : List Action) :
    (run (Hub.step env) (.init policy) actions).Faithful :=
  run_preserves (fun hub action h => h.step action) (fun s hs => by cases hs) actions

/-- A stream that is polled in time leaves nothing out. -/
theorem written_of_prompt {actions : List Action}
    (h : Along (Hub.step env) Prompt (.init policy) actions) {s : Outlet}
    (hs : s ∈ (run (Hub.step env) (.init policy) actions).streams) : s.written =
      (((run (Hub.step env) (.init policy) actions).map.events.take s.next).drop s.since).filterMap
        (frame s.sid) := by
  obtain ⟨got, hgot, hwritten⟩ := faithful_run policy actions s hs
  rw [gone_run h s hs] at hgot
  rw [hwritten, hgot.complete]

/-- **What a stream writes**, whatever else happens: it was opened for the
    session of a cookie that was live, and writes that session's events only, in
    order and each once.  It leaves out no more than it was told are gone, and
    nothing if every poll comes before the broadcast is full. -/
theorem fanout_delivers (env : Env) (policy : SessionPolicy) (actions : List Action) :
    let hub := run (Hub.step env) (.init policy) actions
    ∀ s ∈ hub.streams, Admitted env policy actions s.sid ∧
      (∃ got : List SessionEvent, got.Sublist ((hub.map.events.take s.next).drop s.since) ∧
        got.length + s.gone = s.next - s.since ∧ s.written = got.filterMap (frame s.sid)) ∧
      (Along (Hub.step env) Prompt (.init policy) actions →
        s.written = ((hub.map.events.take s.next).drop s.since).filterMap (frame s.sid)) := by
  intro hub s hs
  obtain ⟨got, hgot, hwritten⟩ := faithful_run policy actions s hs
  exact ⟨(admitted_run actions).2 s hs, ⟨got, hgot.sublist, hgot.length, hwritten⟩,
    fun hprompt => written_of_prompt hprompt hs⟩

/-! ## What the client hears -/

/-- The events that the SDK listens for. -/
def eventName : String → Option Events.EventName
  | "session.killed" => some .sessionKilled
  | "custody.changed" => some .custodyChanged
  | _ => none

/-- What the SDK makes of a frame that arrives at `at_`. -/
def heard (jsonParse : String → Option Events.Parsed) (at_ : ℤ) (f : Frame) :
    Option Events.StreamEvent :=
  (eventName f.event).bind fun name => Events.toStreamEvent name (jsonParse f.data) at_

/-- The event of the server, as the SDK has it. -/
def toldAt (at_ : ℤ) : SessionEvent → Events.StreamEvent
  | .sessionKilled sid reason => .sessionKilled sid.id reason at_
  | .custodyChanged sid custody => .custodyChanged sid.id custody at_

/-- `JSON.parse` reads the payload of an event back. -/
def Parses (jsonParse : String → Option Events.Parsed) (event : SessionEvent) : Prop :=
  jsonParse (jsonObject (payload event)) =
    some (.object ((payload event).map fun p => (p.1, .text p.2)))

instance (jsonParse : String → Option Events.Parsed) : DecidablePred (Parses jsonParse) :=
  fun _ => inferInstanceAs (Decidable (_ = _))

/-- **The two languages agree** on an event. -/
theorem heard_event {jsonParse : String → Option Events.Parsed} {event : SessionEvent}
    (h : Parses jsonParse event) (at_ : ℤ) :
    heard jsonParse at_ ⟨event.name, jsonObject (payload event)⟩ = some (toldAt at_ event) := by
  unfold heard
  dsimp only
  rw [h]
  cases event with
  | sessionKilled sid reason => cases reason <;> rfl
  | custodyChanged sid custody => cases custody <;> rfl

theorem filterMap_kills (events : List SessionEvent) (sid : Sid) :
    (events.filter (·.sid = sid)).filterMap SessionEvent.kills =
      (events.filterMap SessionEvent.kills).filter (· = sid) := by
  rw [List.filterMap_filter, List.filter_filterMap]
  refine List.filterMap_congr fun event _ => ?_
  cases event with
  | sessionKilled sid' reason =>
    by_cases hs : sid' = sid <;> simp [SessionEvent.kills, SessionEvent.sid, Option.filter_some, hs]
  | custodyChanged sid' custody =>
    by_cases hs : sid' = sid <;> simp [SessionEvent.kills, SessionEvent.sid, hs]

theorem filterMap_frame (events : List SessionEvent) (sid : Sid) : events.filterMap (frame sid) =
    (events.filter (·.sid = sid)).map fun event => ⟨event.name, jsonObject (payload event)⟩ := by
  induction events with
  | nil => rfl
  | cons event events ih =>
    rw [List.filterMap_cons, List.filter_cons, ih]
    by_cases hs : event.sid = sid <;> simp [frame, hs]

/-- **A kill is heard once.**  In a run that draws no sid and no token twice, and
    polls in time, a client that has read all there is has heard every event
    of its session since it subscribed as the server announced it, and of these
    exactly one kill if the session was killed since, or none. -/
theorem client_hears_kill (env : Env) (policy : SessionPolicy) (actions : List Action)
    (jsonParse : String → Option Events.Parsed)
    (hparse : ∀ event ∈ (SessionMap.runs policy (actions.flatMap Action.calls)).events,
      Parses jsonParse event)
    (hfresh : Fresh (actions.flatMap Action.calls))
    (hprompt : Along (Hub.step env) Prompt (.init policy) actions) (at_ : ℤ) :
    let hub := run (Hub.step env) (.init policy) actions
    ∀ s ∈ hub.streams, s.next = hub.map.events.length →
      let since := hub.map.events.drop s.since
      let own := since.filter (·.sid = s.sid)
      s.written.map (heard jsonParse at_) = own.map (some <| toldAt at_ ·) ∧
        own.filterMap SessionEvent.kills =
          if s.sid ∈ since.filterMap SessionEvent.kills then [s.sid] else [] := by
  intro hub s hs hnext since own
  have hwritten := written_of_prompt hprompt hs
  rw [hnext, List.take_length, filterMap_frame] at hwritten
  have hnodup : hub.map.killed.Nodup := by
    rw [show hub.map = _ from map_run actions]
    exact (SessionMap.kept_run policy hfresh).killings.nodup
  constructor
  · rw [hwritten, List.map_map]
    refine List.map_congr_left fun event hevent => heard_event (hparse event ?_) at_
    rw [← map_run actions]
    exact (List.drop_sublist ..).mem (List.mem_filter.1 hevent).1
  · rw [filterMap_kills, List.filter_eq, List.Nodup.count]
    · split_ifs <;> rfl
    · refine hnodup.sublist ?_
      exact (List.drop_sublist ..).filterMap _

/-- A login, a stream on it, and a logout. -/
def logoutHeard : List Action :=
  [.call (.create ⟨"s"⟩ ⟨"c"⟩ "alice" .sample1 ⟨0⟩),
    .request ⟨some (Crypto.asBytes "same-origin"), none,
      [Crypto.asBytes "__Host-broker_session=t"], ⟨10⟩⟩,
    .subscribe 0, .call (.tombstone ⟨"s"⟩ .loggedOut ⟨20⟩), .poll 0]

def Env.sample : Env :=
  ⟨⟨"https://app.example", true, "/auth/login"⟩, fun _ => SessionToken.sample1.hash⟩

/-- What `JSON.parse` makes of one text. -/
def parsesLogout (text : String) : Option Events.Parsed :=
  if text = jsonObject (payload (.sessionKilled ⟨"s"⟩ .loggedOut)) then
    some (.object [("reason", .text "logged_out"), ("sid", .text "s")])
  else none

theorem client_hears_logout :
    let hub := run (Hub.step .sample) (.init {}) logoutHeard
    ∃ s ∈ hub.streams, s.written.map (heard parsesLogout 5) =
      [some (.sessionKilled "s" .loggedOut 5)] := by
  have hall := client_hears_kill .sample {} logoutHeard parsesLogout (by decide +kernel)
    (by decide +kernel) (by decide +kernel) 5
  refine ⟨_, List.mem_singleton_self _, ?_⟩
  exact (hall _ (List.mem_singleton_self _) (by decide +kernel)).1.trans (by decide +kernel)

end Fanout

end SessionBroker
