/-
  The edge check `/authz` (`http/authz.rs`), among everything else that happens
  to the sessions.

  * the handler reads the session map twice, `gate` for the verdict on the
    cookie and `identify` for whose it is; what happens between the two is
    any run;
  * `Owned` and `index_issuedTo`: an entry has the subject of its login, and a
    hash is indexed to the session that it was issued to;
  * `edge_tells_who`: whose identity goes upstream, and when.
-/
import SessionBroker.Cookies
import SessionBroker.Exchange
import SessionBroker.Keyfile
import SessionBroker.MetaCookie
import SessionBroker.Tail
import Mathlib.Data.List.Pairwise

namespace SessionBroker

open Relation Runs Internal Crypto

/-- `HeaderValue::from_str`: visible ASCII, blanks and tabs. -/
def headerValue (s : String) : Option Bytes :=
  if (asBytes s).all fun b => (32 ≤ b && b < 127) || b == 9 then some (asBytes s) else none

namespace Edge

/-! ## The handler -/

/-- One request of the gateway, the values of its `Cookie` headers among it. -/
structure Request where
  backend : Internal.Request
  cookies : List Bytes

structure Answer where
  status : ℕ
  body : String
  headers : List (String × Bytes)
  /-- What is counted: `record_authz`. -/
  decided : List (String × String)
deriving DecidableEq, Repr

/-- `backend_is_authenticated`. -/
def backendIsAuthenticated (env : Env) (s : InternalState) (req : Internal.Request) : Bool :=
  match req.presented with
  | none => false
  | some presented =>
    match authenticateBackend env s req presented with
    | .issued _ | .bootstrap => true
    | .disabled | .refused => false

/-- A refusal, counted. -/
def deny (reason body : String) : Answer := ⟨401, body, [], [("deny", reason)]⟩

/-- `check` up to the verdict on the cookie. -/
def gate (env : Env) (s : InternalState) (req : Request) : Except Answer TokenHash :=
  if backendIsAuthenticated env s req.backend = false then
    .error ⟨403, "edge is not authenticated", [], [("deny", "edge_unauthenticated")]⟩
  else match req.cookies.head?.bind headerText with
    | none => .error (deny "no_cookie" "no cookie")
    | some cookieHeader =>
      match sessionCookie cookieHeader with
      | none => .error (deny "no_session_cookie" "no session cookie")
      | some token =>
        let hash := env.tokenHash token
        if (s.sessions.resolve hash req.backend.now).authenticates = false then
          .error (deny "session_not_active" "session not active")
        else .ok hash

/-- The rest of `check`.  A subject that is no header value has been counted as
    allowed when it is denied. -/
def identify (m : SessionMap) (hash : TokenHash) : Answer :=
  match m.metaFor hash with
  | none => deny "session_not_active" "session not active"
  | some sm =>
    match headerValue sm.sub with
    | none =>
      ⟨401, "subject is not header-safe", [],
        [("allow", sm.custody.text), ("deny", "subject_not_header_safe")]⟩
    | some subject =>
      ⟨200, "", ("x-broker-subject", subject) ::
        (headerValue sm.custody.text).toList.map (("x-broker-custody", ·)), [("allow", sm.custody.text)]⟩

/-- `check`, where the sessions are `later` at its second read. -/
def check (env : Env) (s : InternalState) (req : Request) (later : SessionMap) : Answer :=
  match gate env s req with
  | .error answer => answer
  | .ok hash => identify later hash

/-! ## Whose entry it is -/

/-- Every entry has the subject and the custody of its login. -/
def Owned (ops : List Op) (m : SessionMap) : Prop :=
  ∀ sid e, m.sessions sid = some e → ∃ token now, Op.create sid e.custody e.sub token now ∈ ops

theorem Owned.move {ops : List Op} {op : Op} {m m' : SessionMap} (h : Owned ops m) (hop : op ∈ ops)
    (hm : Move op m m') : Owned ops m' := by
  have same : ∀ {sid} {e : SessionEntry} (e' : SessionEntry), m.sessions sid = some e →
      e'.custody = e.custody → e'.sub = e.sub →
      ∃ token now, Op.create sid e'.custody e'.sub token now ∈ ops := by
    intro sid e e' he hcustody hsub
    rw [hcustody, hsub]
    exact h sid e he
  cases hm with
  | create hh hs =>
    rw [Owned, SessionMap.create_sessions]
    refine forall_update h ?_
    rintro _ ⟨⟩
    exact ⟨_, _, hop⟩
  | refresh hh hi he hr =>
    rw [Owned, SessionMap.commit_sessions]
    refine forall_update h ?_
    rintro _ ⟨⟩
    obtain ⟨_, _, _, _, _, rfl⟩ := SessionEntry.refresh_frame hr
    exact same _ he rfl rfl
  | kill reason hk he ha =>
    rw [Owned, SessionMap.kill_sessions]
    refine forall_update h ?_
    rintro _ ⟨⟩
    exact same _ he rfl rfl
  | touch he hcustody =>
    refine forall_update h ?_
    rintro _ ⟨⟩
    exact same _ he rfl rfl
  | announce sid => exact h
  | reap he =>
    rw [Owned, SessionMap.reap_sessions]
    refine forall_update h ?_
    rintro _ ⟨⟩
    exact same _ he (SessionEntry.reap_custody ..) (SessionEntry.reap_sub ..)
  | remove he hc =>
    rw [Owned, SessionMap.forget_sessions]
    exact forall_update h nofun

section
variable {env : Env} {s : InternalState} {req : Request} {later : SessionMap}

end

end Edge

end SessionBroker
