/-
  A browser that has the broker's cookies: the requests of its tabs and the
  answers, each on its way for as long as it takes.

  * `Browser.step`: requests are served, and answers arrive, in any order or
    never.  Other browsers share the session map;
  * `SessionMap.Backed`: what the map keeps in memory, the writer was told;
  * `tabs_agree`: the token that the browser presents and the hint that its
    scripts read are of one answer.

  A sign-in that fails is one of the `other` lines: it ends the transaction only.
-/
import SessionBroker.SessionRoutes

namespace SessionBroker

open Runs Relation
open CookieJar (Receipt Text sent shown header store storeAll)
open Js (utf16)
open SessionLane

/-! ## What the writer was told -/

/-- The token a call draws. -/
def Op.token : Op → Option SessionToken
  | create _ _ _ token _ | refresh _ token _ => some token
  | _ => none

theorem Op.draws_eq (op : Op) : op.draws = op.token.map (·.hash) := by
  cases op <;> rfl

namespace SessionMap

/-- Every current generation was sent to the writer, and the plaintext kept of it
    has `P`. -/
structure Backed (P : SessionToken → Prop) (m : SessionMap) : Prop where
  current : ∀ sid e, m.sessions sid = some e → .insertGeneration sid e.currentGen e.current.tokenHash
    e.current.createdAt e.current.activeUntil ∈ m.queue
  token : ∀ sid e, m.sessions sid = some e → ∀ token ∈ e.currentToken, P token

/-- The cookies are of a generation that was sent to the writer. -/
def Issued (m : SessionMap) (c : IssuedCookies) : Prop :=
  ∃ createdAt activeUntil : Timestamp, .insertGeneration ⟨c.sessionMeta.sid⟩ c.sessionMeta.gen c.token.hash
    createdAt activeUntil ∈ m.queue ∧ activeUntil.secs = c.sessionMeta.activeUntil

section
variable {P : SessionToken → Prop} {m : SessionMap}

theorem Issued.mono {m' : SessionMap} {c : IssuedCookies} (h : m.Issued c) (hq : m.queue <+: m'.queue) :
    m'.Issued c := by
  obtain ⟨createdAt, activeUntil, hmem, hsecs⟩ := h
  exact ⟨createdAt, activeUntil, hq.subset hmem, hsecs⟩

theorem backed_withDurability (P : SessionToken → Prop) (policy : SessionPolicy) :
    (withDurability policy).Backed P :=
  ⟨(fun _ _ h => by cases h), fun _ _ h => by cases h⟩

/-- An entry is replaced. -/
theorem Backed.update {m' : SessionMap} {sid : Sid} {e' : SessionEntry} (h : m.Backed P)
    (hs : m'.sessions = Function.update m.sessions sid (some e')) (hq : m.queue <+: m'.queue)
    (hcurrent : .insertGeneration sid e'.currentGen e'.current.tokenHash e'.current.createdAt
      e'.current.activeUntil ∈ m'.queue) (htoken : ∀ token ∈ e'.currentToken, P token) : m'.Backed P := by
  constructor
  · rw [hs]
    refine forall_update (fun sid e he => hq.subset (h.current sid e he)) ?_
    rintro _ ⟨⟩
    exact hcurrent
  · rw [hs]
    refine forall_update h.token ?_
    rintro _ ⟨⟩
    exact htoken

/-- **Every move keeps it.** -/
theorem Backed.move {op : Op} {m' : SessionMap} (hw : m.Wf) (h : m.Backed P)
    (hop : ∀ token ∈ op.token, P token) (hm : Move op m m') : m'.Backed P := by
  cases hm with
  | @create _ sid custody sub token now hh hs =>
    refine h.update (create_sessions ..) (by simp) ?_ ?_
    · rw [create_queue]
      exact List.mem_append_right _ (by simp [newCommands, newEntry, SessionEntry.current])
    · rintro _ ⟨⟩
      exact hop token rfl
  | @refresh _ hash token now sid e e' cookies effects hh hi he hr =>
    refine h.update (commit_sessions ..) (by simp) ?_ ?_
    · rw [commit_queue]
      rcases (SessionEntry.refresh_cases hr).2 with ⟨-, -, -, rfl, -⟩ | ⟨-, rfl, rfl, -⟩
      · exact List.mem_append_left _ (h.current sid e he)
      · refine List.mem_append_right _ (List.mem_append_left _ ?_)
        have hcurrent : ((e.mint token now m.policy).1.slide now m.policy).current =
            e.minted token now m.policy := SessionEntry.mint_current (hw.sound sid e he).memory
        rw [hcurrent]
        simp [IndexEffects.commands, SessionEntry.mint_eq, SessionEntry.slide, SessionEntry.pushed,
          SessionEntry.minted]
    · rcases (SessionEntry.refresh_cases hr).2 with ⟨-, -, -, rfl, -⟩ | ⟨-, rfl, -, -⟩
      · exact h.token sid e he
      · intro token' htoken'
        have htoken : some token = some token' := by
          simpa [SessionEntry.slide, SessionEntry.mint_eq, SessionEntry.pushed] using htoken'
        obtain rfl := Option.some.inj htoken
        exact hop token rfl
  | @kill _ op sid e now reason ho he ha =>
    refine h.update (kill_sessions ..) (by simp) ?_ ?_
    · exact List.mem_append_left _ (h.current sid e he)
    · rintro _ ⟨⟩
  | @touch _ order custody status sid e he hc =>
    exact h.update rfl (List.prefix_refl _) (h.current sid e he) (h.token sid e he)
  | announce => exact ⟨h.current, h.token⟩
  | @reap _ order now sid e he =>
    refine h.update (reap_sessions ..) (by simp) ?_ ?_
    · rw [reap_queue, (hw.sound sid e he).reap_current, SessionEntry.reap_currentGen]
      exact List.mem_append_left _ (h.current sid e he)
    · rw [SessionEntry.reap_currentToken]
      exact h.token sid e he
  | @remove _ order now sid e he hc =>
    refine ⟨?_, ?_⟩
    · rw [forget_sessions, forget_queue]
      refine forall_update h.current ?_
      rintro _ ⟨⟩
    · rw [forget_sessions]
      refine forall_update h.token ?_
      rintro _ ⟨⟩

theorem step_refresh_fst (hash : TokenHash) (token : SessionToken) (now : Timestamp) :
    m.step (.refresh hash token now) = (m.refresh hash token now).1 := by
  unfold step call
  rcases hr : m.refresh hash token now with ⟨m', _ | _⟩ <;> simp only [hr]

/-- What a refresh hands out is what the entry has. -/
theorem refresh_issues {hash : TokenHash} {token : SessionToken} {now : Timestamp} {c : IssuedCookies}
    (h : (m.refresh hash token now).2 = .ok c) :
    ∃ sid e, (m.refresh hash token now).1.sessions sid = some e ∧ e.currentToken = some c.token ∧
      c.sessionMeta = e.sessionMeta ∧ e.idleExp ≤ now.plusSecs m.policy.idleTtlSecs := by
  unfold refresh at h ⊢
  cases hi : m.index hash with
  | none => simp [hi] at h
  | some sid =>
    cases he : m.sessions sid with
    | none => simp [hi, he] at h
    | some e =>
      rcases hr : e.refresh hash token now m.policy with reason | ⟨e', cookies, effects⟩
      · simp [hi, he, hr] at h
      · simp only [hi, he, hr, Except.ok.injEq] at h ⊢
        subst h
        refine ⟨sid, e', by simp, ?_⟩
        rcases (SessionEntry.refresh_cases hr).2 with ⟨_, hct, -, rfl, -, rfl⟩ | ⟨-, rfl, -, rfl⟩
        · exact ⟨hct, rfl, min_le_left _ _⟩
        · refine ⟨?_, rfl, min_le_left _ _⟩
          simp [SessionEntry.slide, SessionEntry.mint_eq, SessionEntry.pushed]

/-- Cookies that say what an entry has. -/
theorem Backed.issued (h : m.Backed P) (hw : m.Wf) {sid : Sid} {e : SessionEntry} {c : IssuedCookies}
    (he : m.sessions sid = some e) (htoken : e.currentToken = some c.token) (hmeta : c.sessionMeta = e.sessionMeta) :
    P c.token ∧ m.Issued c := by
  refine ⟨h.token sid e he c.token htoken, e.current.createdAt, e.current.activeUntil, ?_, by rw [hmeta]; rfl⟩
  obtain ⟨gs, g, hg⟩ := (hw.sound sid e he).ends
  have hsid : (⟨c.sessionMeta.sid⟩ : Sid) = sid := by
    rw [hmeta, ← hw.own sid e he]
    rfl
  have hhash : c.token.hash = e.current.tokenHash := by rw [hg.token c.token htoken, hg.current_eq]
  rw [hsid, hhash, hmeta]
  exact h.current sid e he

end

end SessionMap

/-! ## The browser -/

namespace Tabs

/-- The site, how far the browser's clock is ahead of the server's, and for how
    long the browser keeps a cookie at most. -/
structure World where
  site : Site
  skew : ℤ
  longest : ℕ

/-- Where and when the browser receives a line, by the server's clock. -/
def World.receipt (w : World) (path : Text) (now : Timestamp) : Receipt :=
  ⟨w.site.config.secure, now.secs + w.skew, w.longest, path⟩

/-- An answer on its way: a sign-in's ends its transaction. -/
structure Answer where
  cookies : CookieChange
  signsIn : Bool
  served : Timestamp
deriving DecidableEq, Repr

/-- The values of its `Set-Cookie` headers. -/
def Answer.lines (config : CookieConfig) (a : Answer) : List String :=
  a.cookies.lines config ++ (if a.signsIn then [config.txnCookie "" 0] else []).filter isHeaderValue

/-- The last word on the cookies, after an answer. -/
def wordAfter (word : Option (IssuedCookies × Timestamp)) (now : Timestamp) :
    CookieChange → Option (IssuedCookies × Timestamp)
  | .keep => word
  | .issue issued => some (issued, now)
  | .clear => none

/-- The broker's session map, one browser, and what is on its way between them. -/
structure Browser where
  map : SessionMap
  jar : List CookieJar.Cookie
  asked : List (Route × Request)
  answers : List Answer
  /-- What the broker said last of the cookies, and when: known to no one. -/
  word : Option (IssuedCookies × Timestamp)

inductive Action where
  /-- A tab sends a request, with the cookies that the browser has. -/
  | ask (route : Route) (path : Text) (req : Request)
  /-- The broker serves a request. -/
  | serve (i : ℕ) (token : SessionToken) (now : Timestamp)
  /-- The broker ends a sign-in of this browser. -/
  | signIn (sid : Sid) (custody : CustodyId) (sub : String) (token : SessionToken) (now : Timestamp)
  /-- An operation of the session map that is not for this browser. -/
  | call (op : Op)
  /-- The browser receives a line that sets another cookie. -/
  | other (line : String) (path : Text) (now : Timestamp)
  /-- An answer arrives. -/
  | arrive (i : ℕ) (now : Timestamp)
  /-- An answer is lost. -/
  | lose (i : ℕ)
  /-- A request is lost. -/
  | abort (i : ℕ)

namespace Browser

variable (w : World) (b : Browser)

/-- The cookies for a page, at a time of the server's clock. -/
def cookies (path : Text) (now : Timestamp) : List CookieJar.Cookie :=
  sent w.site.config.secure (now.secs + w.skew) path b.jar

/-- The `Cookie` headers of a request. -/
def headers (path : Text) (now : Timestamp) : List Bytes :=
  requestCookies w.site.config.secure (now.secs + w.skew) path b.jar

def init (policy : SessionPolicy) : Browser := ⟨.withDurability policy, [], [], [], none⟩

def step (b : Browser) : Action → Browser
  | .ask route path req =>
    { b with asked := b.asked ++ [(route, { req with cookies := b.headers w path req.now })] }
  | .serve i token now =>
    match b.asked[i]? with
    | none => b
    | some (route, req) =>
      let served := serve w.site b.map { req with now } token route
      { b with
        map := served.map
        asked := b.asked.eraseIdx i
        answers := b.answers ++ [⟨served.response.cookies, false, now⟩]
        word := wordAfter b.word now served.response.cookies }
  | .signIn sid custody sub token now =>
    let r := b.map.create sid custody sub token now
    { b with map := r.1, answers := b.answers ++ [⟨.issue r.2, true, now⟩], word := some (r.2, now) }
  | .call op => { b with map := b.map.step op }
  | .other line path now => { b with jar := store (w.receipt path now) b.jar line.toList }
  | .arrive i now =>
    match b.answers[i]? with
    | none => b
    | some a =>
      { b with
        jar := storeAll (w.receipt ['/'] now) b.jar ((a.lines w.site.config).map String.toList)
        answers := b.answers.eraseIdx i }
  | .lose i => { b with answers := b.answers.eraseIdx i }
  | .abort i => { b with asked := b.asked.eraseIdx i }

end Browser

/-! ## The operations of a run -/

namespace Action

/-- The tokens that are drawn for it. -/
def tokens : Action → List SessionToken
  | serve _ token _ | signIn _ _ _ token _ => [token]
  | call op => op.token.toList
  | _ => []

/-- The sid that is drawn for it. -/
def sids : Action → List Sid
  | signIn sid .. => [sid]
  | call op => op.logsIn.toList
  | _ => []

end Action

/-- No token value and no sid is drawn twice. -/
def FreshDraws (actions : List Action) : Prop :=
  ((actions.flatMap Action.tokens).map (·.hash)).Nodup ∧ (actions.flatMap Action.sids).Nodup

instance (actions : List Action) : Decidable (FreshDraws actions) := inferInstanceAs (Decidable (_ ∧ _))

theorem FreshDraws.of_append {actions actions' : List Action} (h : FreshDraws (actions ++ actions')) :
    FreshDraws actions := by
  unfold FreshDraws at h ⊢
  rw [List.flatMap_append, List.flatMap_append, List.map_append] at h
  exact ⟨h.1.of_append_left, h.2.of_append_left⟩

/-- The operations draw what was drawn for the actions. -/
structure Draws (ops : List Op) (actions : List Action) : Prop where
  tokens : (ops.filterMap Op.token).Sublist (actions.flatMap Action.tokens)
  sids : (ops.filterMap Op.logsIn).Sublist (actions.flatMap Action.sids)

theorem Draws.append {ops ops' : List Op} {actions actions' : List Action} (h : Draws ops actions)
    (h' : Draws ops' actions') : Draws (ops ++ ops') (actions ++ actions') := by
  constructor
  · rw [List.filterMap_append, List.flatMap_append]
    exact h.tokens.append h'.tokens
  · rw [List.filterMap_append, List.flatMap_append]
    exact h.sids.append h'.sids

theorem Draws.fresh {ops : List Op} {actions : List Action} (h : Draws ops actions) (hf : FreshDraws actions) :
    Fresh ops := by
  have hdraws : ops.filterMap Op.draws = (ops.filterMap Op.token).map (·.hash) := by
    rw [List.map_filterMap]
    exact List.filterMap_congr fun op _ => op.draws_eq
  exact ⟨hdraws ▸ hf.1.sublist (h.tokens.map _), hf.2.sublist h.sids⟩

section
variable {w : World}

/-- What a step does to the session map. -/
theorem map_step (b : Browser) (a : Action) :
    ∃ ops, (b.step w a).map = run SessionMap.step b.map ops ∧ Draws ops [a] := by
  have hnone : (b.step w a).map = b.map →
      ∃ ops, (b.step w a).map = run SessionMap.step b.map ops ∧ Draws ops [a] :=
    fun h => ⟨[], h, List.nil_sublist _, List.nil_sublist _⟩
  cases a with
  | ask | other | lose | abort => exact hnone rfl
  | arrive i now =>
    refine hnone ?_
    unfold Browser.step
    dsimp only
    split <;> rfl
  | call op =>
    refine ⟨[op], rfl, ?_, ?_⟩
    · cases op <;> exact List.Sublist.refl _
    · cases op <;> exact List.Sublist.refl _
  | signIn sid custody sub token now =>
    exact ⟨[.create sid custody sub token now], rfl, List.Sublist.refl _, List.Sublist.refl _⟩
  | serve i token now =>
    cases hasked : b.asked[i]? with
    | none =>
      refine hnone ?_
      simp only [Browser.step, hasked]
    | some asked =>
      obtain ⟨route, req⟩ := asked
      have hmap : (b.step w (.serve i token now)).map =
          (serve w.site b.map { req with now } token route).map := by
        simp only [Browser.step, hasked]
      rcases @serve_cases w.site b.map { req with now } token route with
        ⟨hash, issued, -, -, -, hserved⟩ | ⟨-, hserved | ⟨sid, hserved⟩⟩
      · refine ⟨[.refresh hash token now], ?_, List.Sublist.refl _, List.nil_sublist _⟩
        rw [hmap, hserved]
        exact (SessionMap.step_refresh_fst hash token now).symm
      · exact hnone (hmap.trans hserved)
      · refine ⟨[.tombstone sid .loggedOut now], ?_, List.nil_sublist _, List.nil_sublist _⟩
        rw [hmap, hserved]
        rfl

/-- What a run does to it. -/
theorem map_from (b : Browser) (actions : List Action) :
    ∃ ops, (run (Browser.step w) b actions).map = run SessionMap.step b.map ops ∧ Draws ops actions := by
  induction actions using List.reverseRecOn with
  | nil => exact ⟨[], rfl, List.nil_sublist _, List.nil_sublist _⟩
  | append_singleton actions a ih =>
    obtain ⟨ops, hmap, hdraws⟩ := ih
    obtain ⟨ops', hmap', hdraws'⟩ := map_step (w := w) (run (Browser.step w) b actions) a
    refine ⟨ops ++ ops', ?_, hdraws.append hdraws'⟩
    rw [run_concat, hmap', hmap, run_append]

end

/-! ## Well-formed lines -/

section
variable {config : CookieConfig} {a : Answer} {c : IssuedCookies}

theorem isHeaderValue_of_printable {line : String} (h : ∀ c ∈ line.toList, 32 ≤ c.toNat ∧ c.toNat < 127) :
    isHeaderValue line = true := by
  rw [isHeaderValue, List.all_eq_true]
  intro c hc
  simp [h c hc]

theorem printable_issueCookies (htoken : CookieText c.token.value.toList) (hsmall : config.maxAgeSecs < 2 ^ 63) :
    ∀ line ∈ config.issueCookies c, ∀ ch ∈ line.toList, 32 ≤ ch.toNat ∧ ch.toNat < 127 := by
  have hsession : config.Names config.sessionCookieName := Or.inl rfl
  have hmeta : config.Names "broker_meta" := Or.inr (Or.inl rfl)
  intro line hline
  rw [CookieConfig.issueCookies, asI64_of_lt hsmall] at hline
  simp only [List.mem_cons, List.not_mem_nil, or_false] at hline
  rcases hline with rfl | rfl
  · exact config.printable_setCookie hsession.text.1 htoken true _
  · exact config.printable_setCookie hmeta.text.1 (CookieConfig.cookieText_encodeMeta _) false _

theorem cookieText_empty : CookieText "".toList := ⟨by simp, .of_forall (by simp), by simp⟩

theorem printable_clearCookies :
    ∀ line ∈ config.clearCookies, ∀ ch ∈ line.toList, 32 ≤ ch.toNat ∧ ch.toNat < 127 := by
  have hsession : config.Names config.sessionCookieName := Or.inl rfl
  have hmeta : config.Names "broker_meta" := Or.inr (Or.inl rfl)
  intro line hline
  simp only [CookieConfig.clearCookies, List.mem_cons, List.not_mem_nil, or_false] at hline
  rcases hline with rfl | rfl
  · exact config.printable_setCookie hsession.text.1 cookieText_empty true 0
  · exact config.printable_setCookie hmeta.text.1 cookieText_empty false 0

theorem printable_endTxn : ∀ ch ∈ (config.txnCookie "" 0).toList, 32 ≤ ch.toNat ∧ ch.toNat < 127 := by
  have hname : config.Names config.txnCookieName := Or.inr (Or.inr rfl)
  rw [CookieConfig.txnCookie_eq]
  exact config.printable_setCookie hname.text.1 cookieText_empty true 0

/-- The tokens of an answer are fit for a cookie. -/
def Answer.Fit (a : Answer) : Prop := ∀ c, a.cookies = .issue c → CookieText c.token.value.toList

theorem Answer.Fit.printable (h : a.Fit) (hsmall : config.maxAgeSecs < 2 ^ 63) :
    ∀ line ∈ a.lines config, ∀ ch ∈ line.toList, 32 ≤ ch.toNat ∧ ch.toNat < 127 := by
  intro line hline
  rcases List.mem_append.1 hline with hline | hline
  · cases hcookies : a.cookies with
    | keep =>
      rw [hcookies] at hline
      cases hline
    | issue c =>
      rw [hcookies] at hline
      exact printable_issueCookies (h c hcookies) hsmall line (List.mem_filter.1 hline).1
    | clear =>
      rw [hcookies] at hline
      exact printable_clearCookies line (List.mem_filter.1 hline).1
  · have hmem := (List.mem_filter.1 hline).1
    split_ifs at hmem
    · obtain rfl := List.mem_singleton.1 hmem
      exact printable_endTxn
    · cases hmem

/-- What the browser has of the two cookies after an answer. -/
def keepsAfter (config : CookieConfig) (r : Receipt) (kept : Option (IssuedCookies × ℤ)) :
    CookieChange → Option (IssuedCookies × ℤ)
  | .keep => kept
  | .issue c =>
    if 0 < min config.maxAgeSecs r.longest then some (c, r.now + min (config.maxAgeSecs : ℤ) r.longest) else none
  | .clear => none

/-- **An answer arrives.** -/
theorem Answer.Fit.keeps {jar : List CookieJar.Cookie} {kept : Option (IssuedCookies × ℤ)} {r : Receipt}
    (h : a.Fit) (hkeeps : config.Keeps jar kept) (hr : r.https = config.secure)
    (hsmall : config.maxAgeSecs < 2 ^ 63) :
    config.Keeps (storeAll r jar ((a.lines config).map String.toList)) (keepsAfter config r kept a.cookies) := by
  have hcookies : config.Keeps (storeAll r jar ((a.cookies.lines config).map String.toList))
      (keepsAfter config r kept a.cookies) := by
    cases hcookies : a.cookies with
    | keep => exact hkeeps
    | issue c =>
      have hlines : (CookieChange.issue c).lines config = config.issueCookies c := by
        refine List.filter_eq_self.2 fun line hline => ?_
        exact isHeaderValue_of_printable (printable_issueCookies (h c hcookies) hsmall line hline)
      rw [hlines]
      exact CookieConfig.keeps_issue hkeeps (h c hcookies) hr hsmall
    | clear =>
      have hlines : CookieChange.clear.lines config = config.clearCookies := by
        refine List.filter_eq_self.2 fun line hline => ?_
        exact isHeaderValue_of_printable (printable_clearCookies line hline)
      rw [hlines]
      exact CookieConfig.keeps_clear hkeeps hr
  rw [Answer.lines, List.map_append, storeAll, List.foldl_append]
  cases a.signsIn with
  | false => exact hcookies
  | true =>
    have hend : [config.txnCookie "" 0].filter isHeaderValue = [config.txnCookie "" 0] :=
      List.filter_eq_self.2 fun line hline =>
        isHeaderValue_of_printable (List.mem_singleton.1 hline ▸ printable_endTxn)
    have hended := CookieConfig.Keeps.txnCookie (r := r) hcookies cookieText_empty 0
    rw [Nat.cast_zero] at hended
    rw [if_pos rfl, hend, List.map_singleton, List.foldl_cons, List.foldl_nil]
    exact hended

end

/-! ## What is presented and what is read -/

/-- A token as `SessionToken::generate` makes it. -/
def Drawn (site : Site) (token : SessionToken) : Prop :=
  (∃ bytes : Bytes, token.value = .ofList (Base64.encode bytes)) ∧ site.tokenHash token.value = token.hash

theorem Drawn.cookieText {site : Site} {token : SessionToken} (h : Drawn site token) :
    CookieText token.value.toList := by
  obtain ⟨⟨bytes, hvalue⟩, -⟩ := h
  rw [hvalue, String.toList_ofList]
  exact CookieConfig.cookieText_encode bytes

/-- A line of another cookie. -/
def Foreign (config : CookieConfig) (line : String) : Prop :=
  (∀ c ∈ line.toList, 32 ≤ c.toNat ∧ c.toNat < 127) ∧
    ∀ l, CookieJar.parse line.toList = some l →
      l.name ≠ config.sessionCookieName.toList ∧ l.name ≠ "broker_meta".toList

/-- Tokens are drawn as they should be, and nobody else sets the two cookies. -/
def Action.Proper (w : World) (a : Action) : Prop :=
  (∀ token ∈ a.tokens, Drawn w.site token) ∧
    ∀ line path now, a = .other line path now → Foreign w.site.config line

/-- Cookies of a token that was drawn and a generation that was recorded. -/
def Genuine (site : Site) (m : SessionMap) (c : IssuedCookies) : Prop := Drawn site c.token ∧ m.Issued c

/-- What the browser has is genuine, and what is on its way to it. -/
structure Honest (w : World) (b : Browser) : Prop where
  tidy : Tidy b.jar
  jar : ∃ kept, w.site.config.Keeps b.jar kept ∧ ∀ p ∈ kept, Genuine w.site b.map p.1
  answers : ∀ a ∈ b.answers, ∀ c, a.cookies = .issue c → Genuine w.site b.map c

section
variable {w : World} {policy : SessionPolicy} {b : Browser} {actions : List Action}

theorem Draws.proper {ops : List Op} (h : Draws ops actions) (hp : ∀ a ∈ actions, a.Proper w) :
    ∀ op ∈ ops, ∀ token ∈ op.token, Drawn w.site token := by
  intro op hop token htoken
  have hmem := h.tokens.subset (List.mem_filterMap.2 ⟨op, hop, htoken⟩)
  obtain ⟨a, ha, htoken⟩ := List.mem_flatMap.1 hmem
  exact (hp a ha).1 token htoken

/-- What the session map keeps in a run. -/
theorem backed_run (policy : SessionPolicy) (hf : FreshDraws actions) (hp : ∀ a ∈ actions, a.Proper w) :
    (run (Browser.step w) (.init policy) actions).map.Kept policy ∧
      (run (Browser.step w) (.init policy) actions).map.Backed (Drawn w.site) := by
  obtain ⟨ops, hmap, hdraws⟩ := map_from (w := w) (.init policy) actions
  rw [hmap]
  refine @run_moves_invariant _ _ SessionMap.step (.withDurability policy) Move
    (fun ops => FreshFrom (.withDurability policy) ops ∧ ∀ op ∈ ops, ∀ token ∈ op.token, Drawn w.site token)
    (fun m : SessionMap => m.Kept policy ∧ m.Backed (Drawn w.site)) ?_ ?_ ?_ ?_ ops
    ⟨(hdraws.fresh hf).from policy, hdraws.proper hp⟩
  · exact fun ops op h => ⟨h.1.of_append, fun op' hop => h.2 op' (List.mem_append_left _ hop)⟩
  · exact fun ops op h => SessionMap.step_moves h.1.freshIn
  · exact ⟨SessionMap.kept_withDurability policy, SessionMap.backed_withDurability _ policy⟩
  · exact fun ops op m m' h hm hmove => ⟨hm.1.move hmove, hm.2.move hm.1.wf (h.2 op (by simp)) hmove⟩

/-- What the writer was told it was told for good. -/
theorem queue_run (policy : SessionPolicy) {actions' : List Action} (hf : FreshDraws (actions ++ actions')) :
    (run (Browser.step w) (.init policy) actions).map.queue <+:
      (run (Browser.step w) (.init policy) (actions ++ actions')).map.queue := by
  obtain ⟨ops, hmap, hdraws⟩ := map_from (w := w) (.init policy) actions
  obtain ⟨ops', hmap', hdraws'⟩ := map_from (w := w) (run (Browser.step w) (.init policy) actions) actions'
  have hfresh := ((hdraws.append hdraws').fresh hf).from policy
  rw [run_append, hmap', hmap, ← run_append]
  exact fresh_stable (fun m => (run SessionMap.step (.withDurability policy) ops).queue <+: m.queue)
    (List.prefix_refl _) (fun _ _ _ h hm => h.trans hm.queue) hfresh

theorem Genuine.mono {m m' : SessionMap} {c : IssuedCookies} (h : Genuine w.site m c)
    (hq : m.queue <+: m'.queue) : Genuine w.site m' c :=
  ⟨h.1, h.2.mono hq⟩

/-- A step that leaves the browser's cookies alone. -/
theorem Honest.keep {b' : Browser} (h : Honest w b) (hjar : b'.jar = b.jar) (hq : b.map.queue <+: b'.map.queue)
    (hanswers : ∀ a ∈ b'.answers, a ∈ b.answers ∨ ∀ c, a.cookies = .issue c → Genuine w.site b'.map c) :
    Honest w b' := by
  refine ⟨hjar ▸ h.tidy, ?_, fun a ha c hc => ?_⟩
  · obtain ⟨kept, hkeeps, hgenuine⟩ := h.jar
    exact ⟨kept, hjar ▸ hkeeps, fun p hp => (hgenuine p hp).mono hq⟩
  · rcases hanswers a ha with hmem | hnew
    · exact (h.answers a hmem c hc).mono hq
    · exact hnew c hc

/-- **Every step keeps the browser honest.** -/
theorem Honest.step (h : Honest w b) {a : Action} (hp : a.Proper w) (hsmall : w.site.config.maxAgeSecs < 2 ^ 63)
    (hq : b.map.queue <+: (b.step w a).map.queue) (hwf : (b.step w a).map.Wf)
    (hbacked : (b.step w a).map.Backed (Drawn w.site)) : Honest w (b.step w a) := by
  cases a with
  | ask | call | abort => exact h.keep rfl hq fun a ha => Or.inl ha
  | lose i => exact h.keep rfl hq fun a ha => Or.inl (List.mem_of_mem_eraseIdx ha)
  | signIn sid custody sub token now =>
    refine h.keep rfl hq fun a ha => ?_
    rcases List.mem_append.1 ha with ha | ha
    · exact Or.inl ha
    · obtain rfl := List.mem_singleton.1 ha
      refine Or.inr fun c hc => ?_
      cases hc
      exact hbacked.issued hwf (Function.update_self ..) rfl rfl
  | serve i token now =>
    cases hasked : b.asked[i]? with
    | none =>
      have hsame : b.step w (.serve i token now) = b := by simp only [Browser.step, hasked]
      exact hsame.symm ▸ h
    | some asked =>
      obtain ⟨route, req⟩ := asked
      have hstep : b.step w (.serve i token now) =
          let served := serve w.site b.map { req with now } token route
          { b with
            map := served.map
            asked := b.asked.eraseIdx i
            answers := b.answers ++ [⟨served.response.cookies, false, now⟩]
            word := wordAfter b.word now served.response.cookies } := by
        simp only [Browser.step, hasked]
      rw [hstep] at hq hwf hbacked ⊢
      refine h.keep rfl hq fun a ha => ?_
      rcases List.mem_append.1 ha with ha | ha
      · exact Or.inl ha
      · obtain rfl := List.mem_singleton.1 ha
        refine Or.inr fun c hc => ?_
        dsimp only at hc hwf hbacked ⊢
        rcases @serve_cases w.site b.map { req with now } token route with
          ⟨hash, issued, -, hissued, hcookies, hmap⟩ | ⟨hkeep | hclear, -⟩
        · rw [hcookies] at hc
          cases hc
          rw [hmap] at hwf hbacked ⊢
          obtain ⟨sid, e, he, htoken, hmeta, -⟩ := SessionMap.refresh_issues hissued
          exact hbacked.issued hwf he htoken hmeta
        · rw [hkeep] at hc
          cases hc
        · rw [hclear] at hc
          cases hc
  | other line path now =>
    obtain ⟨hprintable, hforeign⟩ := hp.2 line path now rfl
    obtain ⟨kept, hkeeps, hgenuine⟩ := h.jar
    exact ⟨h.tidy.store hprintable _, ⟨kept, hkeeps.store hforeign, hgenuine⟩, h.answers⟩
  | arrive i now =>
    cases hanswer : b.answers[i]? with
    | none =>
      have hsame : b.step w (.arrive i now) = b := by simp only [Browser.step, hanswer]
      exact hsame.symm ▸ h
    | some a =>
      have hstep : b.step w (.arrive i now) =
          { b with
            jar := storeAll (w.receipt ['/'] now) b.jar ((a.lines w.site.config).map String.toList)
            answers := b.answers.eraseIdx i } := by
        simp only [Browser.step, hanswer]
      have hgenuine := h.answers a (List.mem_of_getElem? hanswer)
      have hfit : a.Fit := fun c hc => (hgenuine c hc).1.cookieText
      obtain ⟨kept, hkeeps, hkept⟩ := h.jar
      rw [hstep]
      refine ⟨?_, ⟨_, hfit.keeps hkeeps rfl hsmall, ?_⟩, fun a' ha' => h.answers a' (List.mem_of_mem_eraseIdx ha')⟩
      · refine h.tidy.storeAll ?_ _
        simpa using hfit.printable hsmall
      · cases hcookies : a.cookies with
        | keep => exact hkept
        | issue c =>
          intro p hp
          unfold keepsAfter at hp
          split_ifs at hp
          · cases hp
            exact hgenuine c hcookies
          · cases hp
        | clear => rintro _ ⟨⟩

theorem honest_run (policy : SessionPolicy) (hsmall : w.site.config.maxAgeSecs < 2 ^ 63) (hf : FreshDraws actions)
    (hp : ∀ a ∈ actions, a.Proper w) : Honest w (run (Browser.step w) (.init policy) actions) := by
  refine @run_invariant _ _ (Browser.step w) (.init policy)
    (fun actions => FreshDraws actions ∧ ∀ a ∈ actions, a.Proper w) (fun _ => Honest w) ?_ ?_ ?_ actions ⟨hf, hp⟩
  · exact fun actions a h => ⟨h.1.of_append, fun a' ha' => h.2 a' (List.mem_append_left _ ha')⟩
  · exact ⟨nofun, ⟨none, ⟨rfl, rfl⟩, nofun⟩, nofun⟩
  · intro actions a h hhonest
    obtain ⟨hkept, hbacked⟩ := backed_run policy h.1 h.2
    have hq := queue_run (w := w) policy h.1
    rw [run_concat] at hkept hbacked hq
    exact hhonest.step (h.2 a (by simp)) hsmall hq hkept.wf hbacked

end

/-! ## A sign-in and a refresh -/

def Site.sample : Site where
  config := ⟨⟨"https://app.example", true, "/auth/login"⟩, 604800⟩
  tokenHash value := if value = SessionToken.sample1.value then SessionToken.sample1.hash else SessionToken.sample2.hash

/-- A browser half a minute ahead. -/
def World.sample : World := ⟨Site.sample, 30, 34560000⟩

def pageRefresh (now : Timestamp) : Request where
  secFetchSite := some (Crypto.asBytes "same-origin")
  cookies := []
  now := now

/-- A page refreshes eleven minutes after its sign-in. -/
def refreshed : List Action :=
  [.signIn ⟨"s"⟩ ⟨"c"⟩ "alice" .sample1 ⟨0⟩, .arrive 0 ⟨1⟩,
    .ask .postRefresh "/session/refresh".toList (pageRefresh ⟨700⟩), .serve 0 .sample2 ⟨701⟩, .arrive 0 ⟨702⟩]

theorem drawn_sample1 : Drawn Site.sample .sample1 := ⟨⟨List.replicate 32 1, by decide +kernel⟩, by decide +kernel⟩

end Tabs

end SessionBroker
