/-
  `brokerFetch` (`fetch.ts`), for every request that `fetch` can be given.

  * `World`: the bodies that can be taken once, the requests that went out and
    the refreshes;
  * `construct`: the request that `fetch` makes of its arguments, which takes
    the body that it sends; a body that is gone is a `TypeError`;
  * `brokerFetch`: the two sends, with the refresh between them;
  * `Recovers`: what a call owes;
  * `broker_fetch_iff`: it does so unless a body is wanted twice that can be
    taken once.

  What the browser derives from a body (its `Content-Type`) is not part of a
  request here.
-/
import SessionBroker.Lib.JsString
import SessionBroker.Db
import SessionBroker.React

namespace SessionBroker.BrokerFetch

open Js React

/-! ## Requests -/

/-- The body of an `init`: a text, a blob, a buffer or a form, which is kept, or
    a stream. -/
inductive BodyInit where
  | source (content : Bytes)
  | stream (content : Bytes)

/-- `RequestInit`; a body is missing or `null`. -/
structure Init where
  method : Option String
  headers : Option (List (String × String))
  body : Option BodyInit
  credentials : Option String

/-- A `Request`. -/
structure Request where
  url : String
  method : String
  headers : List (String × String)
  body : Option Bytes
  credentials : String

/-- `RequestInfo | URL`. -/
inductive Input where
  | url (url : String)
  | request (request : Request)

/-- The request before `init`. -/
def Input.base : Input → Request
  | .url u => { url := u, method := "GET", headers := [], body := none, credentials := "same-origin" }
  | .request r => r

/-- Why a promise is rejected: the constructor of the request refuses, or there
    is no answer. -/
inductive Rejection where
  | typeError
  | noAnswer (reason : String)
deriving DecidableEq, Repr

/-- An answer, with what its body parses to. -/
structure Reply where
  status : ℕ
  json : Option Value

/-- A `Response`. -/
structure FetchResponse where
  reply : Reply
  bodyUsed : Bool

structure World where
  /-- the body of the `Request` is gone -/
  requestUsed : Bool
  /-- the stream of the `init` is gone -/
  streamUsed : Bool
  sent : List Request
  refreshes : ℕ

/-- Before a call. -/
def World.start (requestUsed streamUsed : Bool) : World :=
  { requestUsed, streamUsed, sent := [], refreshes := 0 }

/-- The methods that are written in capitals. -/
def normalize (method : String) : String :=
  if ["DELETE", "GET", "HEAD", "OPTIONS", "POST", "PUT"].contains method.toUpper then method.toUpper else method

/-- The body that is sent: that of `init`, or else that of the `Request`. -/
def takeBody (input : Input) (init : Init) (w : World) : Option (Option Bytes × World) :=
  match init.body with
  | some (.source content) => some (some content, w)
  | some (.stream content) =>
    if w.streamUsed then none else some (some content, { w with streamUsed := true })
  | none => match input.base.body with
    | some content =>
      if w.requestUsed then none else some (some content, { w with requestUsed := true })
    | none => some (none, w)

/-- `new Request(input, init)`. -/
def construct (input : Input) (init : Init) (w : World) : Option (Request × World) :=
  let request := input.base
  let method := normalize (init.method.getD request.method)
  if (init.body.isSome ∨ request.body.isSome) ∧ (method = "GET" ∨ method = "HEAD") then none
  else (takeBody input init w).map fun (body, w') =>
    ({ request with
        method
        headers := init.headers.getD request.headers
        body
        credentials := init.credentials.getD request.credentials }, w')

/-- `fetchImpl`; the answers are those to the requests in order. -/
def fetchImpl (answers : ℕ → Except Rejection Reply) (input : Input) (init : Init) (w : World) :
    Except Rejection FetchResponse × World :=
  match construct input init w with
  | none => (.error .typeError, w)
  | some (request, w') =>
    ((answers w.sent.length).map fun reply => { reply, bodyUsed := false },
      { w' with sent := w'.sent ++ [request] })

/-! ## The code -/

/-- `clone()`; a body that has been read cannot be cloned. -/
def FetchResponse.clone (response : FetchResponse) : Option (FetchResponse × FetchResponse) :=
  if response.bodyUsed then none else some (response, response)

/-- `json()`, with the response that is left. -/
def FetchResponse.json (response : FetchResponse) : Option Value × FetchResponse :=
  if response.bodyUsed then (none, response) else (response.reply.json, { response with bodyUsed := true })

/-- `safeParseBody`, with the response that is left. -/
def safeParseBody (response : FetchResponse) : Option Value × FetchResponse :=
  match response.clone with
  | none => (none, response)
  | some (copy, response) => (copy.json.1, response)

/-- Neither `null` nor another value that counts as false. -/
def truthy : Value → Bool
  | .null => false
  | .bool b => b
  | .number x => x ≠ .nan && x ≠ .finite 0
  | .string s => s ≠ []
  | .array _ | .object _ => true

/-- `REFRESHABLE`. -/
def refreshable : List Units := [utf16 "session_stale"]

/-- `body && REFRESHABLE.has(body.error)`. -/
def isRefreshable : Option Value → Bool
  | none => false
  | some body => truthy body && match body.get "error" with
    | some (.string code) => refreshable.contains code
    | _ => false

/-- The function that `createBrokerFetch` makes; `refresh` is how the refresh that
    it waits for ends. -/
def brokerFetch (answers : ℕ → Except Rejection Reply) (refresh : Result) (input : Input) (init : Init)
    (w : World) : Except Rejection FetchResponse × World :=
  let send := fetchImpl answers input { init with credentials := some "same-origin" }
  match send w with
  | (.error e, w) => (.error e, w)
  | (.ok first, w) =>
    if first.reply.status ≠ 401 then (.ok first, w)
    else
      let (body, first) := safeParseBody first
      if !isRefreshable body then (.ok first, w)
      else
        let w := { w with refreshes := w.refreshes + 1 }
        match refresh with
        | .success _ => send w
        | .denied _ | .failed => (.ok first, w)

/-! ## What a call owes -/

/-- A 401 whose JSON says `session_stale`. -/
def Reply.Stale (reply : Reply) : Prop :=
  reply.status = 401 ∧ ∃ body, reply.json = some body ∧
    body.get "error" = some (.string (utf16 "session_stale"))

/-- The body that is sent can be taken once: a stream in `init`, or the body of
    the `Request` where `init` has none. -/
def OneShot (input : Input) (init : Init) : Prop :=
  (∃ content, init.body = some (.stream content)) ∨ (init.body = none ∧ input.base.body ≠ none)

section

variable (answers : ℕ → Except Rejection Reply) (refresh : Result) (input : Input) (init : Init) (w : World)

/-- The first send. -/
def firstSend : Except Rejection FetchResponse × World :=
  fetchImpl answers input { init with credentials := some "same-origin" } w

/-- The first answer is stale, and the refresh succeeds. -/
def Recoverable : Prop :=
  (construct input { init with credentials := some "same-origin" } w).isSome ∧
    (∃ reply, answers 0 = .ok reply ∧ reply.Stale) ∧ ∃ m, refresh = .success m

structure Recovers : Prop where
  sends : (brokerFetch answers refresh input init w).2.sent.length ≤ 2
  refreshes : (brokerFetch answers refresh input init w).2.refreshes ≤ 1
  retried : Recoverable answers refresh input init w →
    ∃ request, (brokerFetch answers refresh input init w).2.sent = [request, request] ∧
      (brokerFetch answers refresh input init w).1 =
        (answers 1).map fun reply => { reply, bodyUsed := false }
  other : ¬Recoverable answers refresh input init w →
    (brokerFetch answers refresh input init w).2.sent.length ≤ 1 ∧
      (brokerFetch answers refresh input init w).1 = (firstSend answers input init w).1 ∧
      ∀ response, (brokerFetch answers refresh input init w).1 = .ok response → response.bodyUsed = false

end

variable {answers : ℕ → Except Rejection Reply} {refresh : Result} {input : Input} {init : Init}
  {w w' v : World} {request : Request}

theorem isRefreshable_iff {json : Option Value} : isRefreshable json = true ↔
    ∃ body, json = some body ∧ body.get "error" = some (.string (utf16 "session_stale")) := by
  cases json with
  | none => simp [isRefreshable]
  | some body =>
    simp only [isRefreshable, Bool.and_eq_true, Option.some_inj, exists_eq_left']
    constructor
    · rintro ⟨-, h⟩
      split at h
      · rename_i code hcode
        rw [refreshable, List.contains_iff_mem, List.mem_singleton] at h
        rw [hcode, h]
      · cases h
    · intro h
      rw [h]
      refine ⟨?_, by simp [refreshable]⟩
      cases body with
      | object l => rfl
      | null | bool _ | number _ | string _ | array _ => cases h

/-- Taking a body leaves the rest. -/
theorem takeBody_frame {body : Option Bytes} (h : takeBody input init w = some (body, w')) :
    w'.sent = w.sent ∧ w'.refreshes = w.refreshes := by
  unfold takeBody at h
  split at h
  · cases h
    exact ⟨rfl, rfl⟩
  · split_ifs at h
    cases h
    exact ⟨rfl, rfl⟩
  · split at h
    · split_ifs at h
      cases h
      exact ⟨rfl, rfl⟩
    · cases h
      exact ⟨rfl, rfl⟩

/-- A body that can be taken once is gone after it has been sent. -/
theorem takeBody_oneShot {body : Option Bytes} (h : takeBody input init w = some (body, w'))
    (hone : OneShot input init) (hrequest : v.requestUsed = w'.requestUsed)
    (hstream : v.streamUsed = w'.streamUsed) : takeBody input init v = none := by
  unfold takeBody at h ⊢
  rcases hone with ⟨content, hinit⟩ | ⟨hinit, hbody⟩
  · rw [hinit] at h ⊢
    dsimp only at h ⊢
    split_ifs at h
    cases h
    exact if_pos hstream
  · obtain ⟨content, hbody⟩ := Option.ne_none_iff_exists'.1 hbody
    rw [hinit] at h ⊢
    dsimp only at h ⊢
    rw [hbody] at h ⊢
    dsimp only at h ⊢
    split_ifs at h
    cases h
    exact if_pos hrequest

/-- Any other is there again. -/
theorem takeBody_again {body : Option Bytes} (h : takeBody input init w = some (body, w'))
    (hone : ¬OneShot input init) (v : World) : takeBody input init v = some (body, v) := by
  unfold takeBody at h ⊢
  split at h
  · cases h
    rfl
  · rename_i content hinit
    exact absurd (Or.inl ⟨content, hinit⟩) hone
  · rename_i hinit
    split at h
    · rename_i content hbody
      refine absurd (Or.inr ⟨hinit, ?_⟩) hone
      rw [hbody]
      exact Option.some_ne_none content
    · cases h
      rfl

/-- A request that was made once. -/
theorem construct_cases (h : construct input init w = some (request, w')) :
    (w'.sent = w.sent ∧ w'.refreshes = w.refreshes) ∧
    (OneShot input init → ∀ v, v.requestUsed = w'.requestUsed → v.streamUsed = w'.streamUsed →
      construct input init v = none) ∧
    (¬OneShot input init → ∀ v, construct input init v = some (request, v)) := by
  unfold construct at h ⊢
  dsimp only at h ⊢
  split_ifs at h ⊢ with hget
  obtain ⟨⟨body, taken⟩, htake, heq⟩ := Option.map_eq_some_iff.1 h
  cases heq
  refine ⟨takeBody_frame htake, fun hone v hrequest hstream => ?_, fun hone v => ?_⟩
  · rw [takeBody_oneShot htake hone hrequest hstream]
    rfl
  · rw [takeBody_again htake hone v]
    rfl

/-! ## What a call does -/

/-- A body that was cloned is still unread. -/
theorem safeParseBody_unread (reply : Reply) :
    safeParseBody { reply, bodyUsed := false } = (reply.json, { reply, bodyUsed := false }) := rfl

section

variable (h : construct input { init with credentials := some "same-origin" } w = some (request, w'))

include h

/-- The first send, where there is a request. -/
theorem firstSend_eq : firstSend answers input init w =
    ((answers w.sent.length).map fun reply => { reply, bodyUsed := false },
      { w' with sent := w'.sent ++ [request] }) := by
  rw [firstSend, fetchImpl, h]

theorem brokerFetch_noAnswer {e : Rejection} (he : answers w.sent.length = .error e) :
    brokerFetch answers refresh input init w = (.error e, { w' with sent := w'.sent ++ [request] }) := by
  have hfirst : firstSend answers input init w = _ := firstSend_eq h
  rw [he] at hfirst
  unfold brokerFetch
  dsimp only
  rw [← firstSend, hfirst]
  rfl

/-- What follows an answer. -/
theorem brokerFetch_answer {reply : Reply} (hreply : answers w.sent.length = .ok reply) :
    brokerFetch answers refresh input init w =
      if reply.status ≠ 401 ∨ isRefreshable reply.json = false then
        (.ok { reply, bodyUsed := false }, { w' with sent := w'.sent ++ [request] })
      else match refresh with
        | .success _ => fetchImpl answers input { init with credentials := some "same-origin" }
            { w' with sent := w'.sent ++ [request], refreshes := w'.refreshes + 1 }
        | .denied _ | .failed => (.ok { reply, bodyUsed := false },
            { w' with sent := w'.sent ++ [request], refreshes := w'.refreshes + 1 }) := by
  have hfirst : firstSend answers input init w = _ := firstSend_eq h
  rw [hreply] at hfirst
  unfold brokerFetch
  dsimp only
  rw [← firstSend, hfirst]
  dsimp only [Except.map]
  by_cases hstatus : reply.status = 401
  · rw [if_neg (not_not.2 hstatus), safeParseBody_unread]
    dsimp only
    cases hbody : isRefreshable reply.json with
    | false => simp
    | true => simp [hstatus]
  · rw [if_pos hstatus, if_pos (Or.inl hstatus)]

end

theorem stale_iff {reply : Reply} :
    ¬(reply.status ≠ 401 ∨ isRefreshable reply.json = false) ↔ reply.Stale := by
  rw [not_or, not_not, Bool.not_eq_false, isRefreshable_iff]
  rfl

/-- A call that hands the outcome of its first send back. -/
theorem recovers_of_back {outcome : Except Rejection FetchResponse}
    (hnot : ¬Recoverable answers refresh input init w)
    (hrun : brokerFetch answers refresh input init w = (outcome, v))
    (hfirst : (firstSend answers input init w).1 = outcome)
    (hunread : ∀ response, outcome = .ok response → response.bodyUsed = false)
    (hsent : v.sent.length ≤ 1) (hrefreshes : v.refreshes ≤ 1) :
    Recovers answers refresh input init w where
  sends := by
    rw [hrun]
    exact hsent.trans (by decide)
  refreshes := by
    rw [hrun]
    exact hrefreshes
  retried hyes := absurd hyes hnot
  other _ := by
    rw [hrun, hfirst]
    exact ⟨hsent, rfl, hunread⟩

/-- Where nothing is recoverable, the outcome of the first send is handed back. -/
theorem recovers_of_not {requestUsed streamUsed : Bool}
    (hnot : ¬Recoverable answers refresh input init (.start requestUsed streamUsed)) :
    Recovers answers refresh input init (.start requestUsed streamUsed) := by
  cases hmake : construct input { init with credentials := some "same-origin" }
      (.start requestUsed streamUsed) with
  | none =>
    have hrun : brokerFetch answers refresh input init (.start requestUsed streamUsed) =
        (.error .typeError, .start requestUsed streamUsed) := by
      simp [brokerFetch, fetchImpl, hmake]
    have hfirst : (firstSend answers input init (.start requestUsed streamUsed)).1 = .error .typeError := by
      rw [firstSend, fetchImpl, hmake]
    exact recovers_of_back hnot hrun hfirst nofun (Nat.zero_le _) (Nat.zero_le _)
  | some made =>
    obtain ⟨request, w'⟩ := made
    obtain ⟨⟨hsent, hrefreshes⟩, -⟩ := construct_cases hmake
    replace hsent : w'.sent = [] := hsent
    replace hrefreshes : w'.refreshes = 0 := hrefreshes
    have hone : (w'.sent ++ [request]).length ≤ 1 := by rw [hsent]; rfl
    have hfirst : (firstSend answers input init (.start requestUsed streamUsed)).1 =
        (answers 0).map fun reply => { reply, bodyUsed := false } := by
      rw [firstSend_eq hmake]
      rfl
    cases hanswer : answers 0 with
    | error e =>
      rw [hanswer] at hfirst
      exact recovers_of_back hnot (brokerFetch_noAnswer hmake hanswer) hfirst nofun hone
        (hrefreshes.trans_le (by decide))
    | ok reply =>
      rw [hanswer] at hfirst
      have hunread : ∀ response, (.ok { reply, bodyUsed := false } : Except Rejection FetchResponse) =
          .ok response → response.bodyUsed = false := by
        intro response heq
        cases heq
        rfl
      have hrun : brokerFetch answers refresh input init (.start requestUsed streamUsed) = _ :=
        brokerFetch_answer hmake hanswer
      by_cases hstale : reply.Stale
      · rw [if_neg (stale_iff.2 hstale)] at hrun
        cases hresult : refresh with
        | success m => exact absurd ⟨by rw [hmake]; rfl, ⟨reply, hanswer, hstale⟩, m, hresult⟩ hnot
        | denied error | failed =>
          rw [hresult] at hrun hnot
          exact recovers_of_back hnot hrun hfirst hunread hone (by dsimp only; rw [hrefreshes])
      · rw [if_pos (not_not.1 (mt stale_iff.1 hstale))] at hrun
        exact recovers_of_back hnot hrun hfirst hunread hone (hrefreshes.trans_le (by decide))

/-- The run of a stale request up to its second send. -/
theorem brokerFetch_stale {requestUsed streamUsed : Bool}
    (h : Recoverable answers refresh input init (.start requestUsed streamUsed)) :
    ∃ request w', construct input { init with credentials := some "same-origin" }
        (.start requestUsed streamUsed) = some (request, w') ∧ w'.sent = [] ∧ w'.refreshes = 0 ∧
      brokerFetch answers refresh input init (.start requestUsed streamUsed) =
        fetchImpl answers input { init with credentials := some "same-origin" }
          { w' with sent := [request], refreshes := 1 } := by
  obtain ⟨hsome, ⟨reply, hanswer, hstale⟩, m, hresult⟩ := h
  obtain ⟨⟨request, w'⟩, hmake⟩ := Option.isSome_iff_exists.1 hsome
  obtain ⟨⟨hsent, hrefreshes⟩, -⟩ := construct_cases hmake
  replace hsent : w'.sent = [] := hsent
  replace hrefreshes : w'.refreshes = 0 := hrefreshes
  refine ⟨request, w', hmake, hsent, hrefreshes, ?_⟩
  rw [brokerFetch_answer hmake hanswer, if_neg (stale_iff.2 hstale), hresult]
  dsimp only
  rw [hsent, hrefreshes]
  rfl

/-- A body that can be taken once is gone at the second send. -/
theorem brokerFetch_gone {requestUsed streamUsed : Bool} (hone : OneShot input init)
    (h : Recoverable answers refresh input init (.start requestUsed streamUsed)) :
    (brokerFetch answers refresh input init (.start requestUsed streamUsed)).1 = .error .typeError ∧
      (brokerFetch answers refresh input init (.start requestUsed streamUsed)).2.sent.length = 1 := by
  obtain ⟨request, w', hmake, -, -, hrun⟩ := brokerFetch_stale h
  obtain ⟨-, hgone, -⟩ := construct_cases hmake
  rw [hrun, fetchImpl, hgone hone { w' with sent := [request], refreshes := 1 } rfl rfl]
  exact ⟨rfl, rfl⟩

theorem not_recovers_of_oneShot {requestUsed streamUsed : Bool} (hone : OneShot input init)
    (h : Recoverable answers refresh input init (.start requestUsed streamUsed)) :
    ¬Recovers answers refresh input init (.start requestUsed streamUsed) := by
  intro hrecovers
  obtain ⟨request, htwo, -⟩ := hrecovers.retried h
  have hlen := (brokerFetch_gone hone h).2
  rw [htwo] at hlen
  cases hlen

/-- Any other is sent again. -/
theorem recovers_of_not_oneShot {requestUsed streamUsed : Bool} (hone : ¬OneShot input init)
    (h : Recoverable answers refresh input init (.start requestUsed streamUsed)) :
    Recovers answers refresh input init (.start requestUsed streamUsed) := by
  obtain ⟨request, w', hmake, -, -, hrun⟩ := brokerFetch_stale h
  obtain ⟨-, -, hagain⟩ := construct_cases hmake
  have hsecond : brokerFetch answers refresh input init (.start requestUsed streamUsed) =
      ((answers 1).map fun reply => { reply, bodyUsed := false },
        { w' with sent := [request, request], refreshes := 1 }) := by
    rw [hrun, fetchImpl, hagain hone]
    rfl
  refine ⟨?_, ?_, fun _ => ⟨request, ?_, ?_⟩, fun hnot => absurd h hnot⟩
  all_goals rw [hsecond]
  exact le_rfl

/-- **A stale request is recovered** unless its body can be taken once. -/
theorem broker_fetch_iff (answers : ℕ → Except Rejection Reply) (refresh : Result) (input : Input)
    (init : Init) (requestUsed streamUsed : Bool) :
    Recovers answers refresh input init (.start requestUsed streamUsed) ↔
      ¬(OneShot input init ∧ Recoverable answers refresh input init (.start requestUsed streamUsed)) := by
  by_cases hyes : Recoverable answers refresh input init (.start requestUsed streamUsed)
  · by_cases hone : OneShot input init
    · exact iff_of_false (not_recovers_of_oneShot hone hyes) fun hnot => hnot ⟨hone, hyes⟩
    · exact iff_of_true (recovers_of_not_oneShot hone hyes) fun hboth => hone hboth.1
  · exact iff_of_true (recovers_of_not hyes) fun hboth => hyes hboth.2

/-- A `Request` with a body, answered by a stale 401 and then by success, ends in
    a `TypeError`. -/
theorem posted_request_is_lost : ∃ answers refresh input init,
    Recoverable answers refresh input init (.start false false) ∧
    (brokerFetch answers refresh input init (.start false false)).1 = .error .typeError ∧
      ¬Recovers answers refresh input init (.start false false) := by
  let post : Request :=
    { url := "/api/things", method := "POST", headers := [], body := some [123, 125], credentials := "omit" }
  let init : Init := { method := none, headers := none, body := none, credentials := none }
  let stale : Reply :=
    { status := 401, json := some (.object [(utf16 "error", .string (utf16 "session_stale"))]) }
  let answers : ℕ → Except Rejection Reply
    | 0 => .ok stale
    | _ => .ok { status := 200, json := none }
  let refreshed : ClientMeta :=
    { v := .finite 1, sub := "alice", sid := "s", gen := .finite 2, activeUntil := .finite 1000
      refreshUntil := .finite 2000, absoluteUntil := .finite 3000, custody := .ok }
  have hone : OneShot (.request post) init := Or.inr ⟨rfl, Option.some_ne_none _⟩
  have hstale : stale.Stale := by
    refine ⟨rfl, _, rfl, ?_⟩
    simp [Value.get]
  have hmake : (construct (.request post) { init with credentials := some "same-origin" }
      (.start false false)).isSome = true := by decide +kernel
  have hyes : Recoverable answers (.success refreshed) (.request post) init (.start false false) :=
    ⟨hmake, ⟨stale, rfl, hstale⟩, refreshed, rfl⟩
  exact ⟨answers, .success refreshed, .request post, init, hyes, (brokerFetch_gone hone hyes).1,
    not_recovers_of_oneShot hone hyes⟩

end SessionBroker.BrokerFetch
