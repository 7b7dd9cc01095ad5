/-
  A browser that the broker's answers reach in order is signed in for as long as
  its session lives.

  * `SessionMap.Newest`: nobody has refreshed a session since a hash was issued
    for it;
  * `InStep`: with the answers still on their way the browser's cookies are what
    the broker said last;
  * `signed_in_as_long_as_alive`: whether a page's refresh succeeds.
-/
import SessionBroker.Tabs

namespace SessionBroker

open Runs Relation
open CookieJar (Text storeAll)
open SessionLane

/-! ## Sessions that nobody refreshes -/

/-- The session was created, and if it is still there then `hash` is its newest
    and it is idle from `idle` on. -/
structure SessionMap.Newest (m : SessionMap) (sid : Sid) (hash : TokenHash) (idle : ℤ) : Prop where
  created : sid ∈ m.created
  entry : ∀ e, m.sessions sid = some e → e.current.tokenHash = hash ∧ e.idleExp.secs ≤ idle

namespace SessionMap.Newest

variable {m m' : SessionMap} {sid : Sid} {hash : TokenHash} {idle : ℤ} {op : Op}

/-- One entry is replaced. -/
theorem update (h : m.Newest sid hash idle) (hq : m.queue <+: m'.queue) {sid' : Sid} {o : Option SessionEntry}
    (hs : m'.sessions = Function.update m.sessions sid' o)
    (ho : sid = sid' → ∀ e, o = some e → e.current.tokenHash = hash ∧ e.idleExp.secs ≤ idle) :
    m'.Newest sid hash idle := by
  refine ⟨(hq.filterMap _).subset h.created, fun e he => ?_⟩
  rw [hs, Function.update_apply] at he
  split_ifs at he with hsid
  · exact ho hsid e he
  · exact h.entry e he

theorem move (h : m.Newest sid hash idle) (hw : m.Wf) (hm : Move op m m')
    (hop : ∀ hash' token now, op = .refresh hash' token now → m.index hash' ≠ some sid) :
    m'.Newest sid hash idle := by
  have hq := hm.queue
  cases hm with
  | @create _ sid' custody sub token now hh hs =>
    refine h.update hq (create_sessions ..) ?_
    rintro rfl
    exact absurd (Or.inr h.created) hs
  | @refresh _ hash' token now sid' e e' cookies effects hh hi he hr =>
    refine h.update hq (commit_sessions ..) ?_
    rintro rfl
    exact absurd hi (hop hash' token now rfl)
  | @kill _ op sid' e now reason ho he ha =>
    refine h.update hq (kill_sessions ..) ?_
    rintro rfl _ ⟨⟩
    exact h.entry e he
  | @touch _ order custody status sid' e he hc =>
    refine h.update hq rfl ?_
    rintro rfl _ ⟨⟩
    exact h.entry e he
  | announce => exact ⟨h.created, h.entry⟩
  | @reap _ order now sid' e he =>
    refine h.update hq (reap_sessions ..) ?_
    rintro rfl _ ⟨⟩
    rw [(hw.sound sid e he).reap_current, SessionEntry.reap_idleExp]
    exact h.entry e he
  | @remove _ order now sid' e he hc => exact h.update hq (forget_sessions ..) (fun _ => nofun)

/-- **Only a refresh of the session** makes another hash its newest. -/
theorem step (h : m.Newest sid hash idle) (hw : m.Wf) (hf : op.FreshIn m)
    (hop : ∀ hash' token now, op = .refresh hash' token now → m.index hash' ≠ some sid) :
    (m.step op).Newest sid hash idle := by
  by_cases hrefresh : ∃ hash' token now, op = .refresh hash' token now
  · obtain ⟨hash', token, now, rfl⟩ := hrefresh
    rcases m.step_refresh hash' token now with hsame | ⟨sid', e, e', cookies, effects, hi, he, hr, hstep⟩
    · rwa [hsame]
    · rw [hstep]
      exact h.move hw (.refresh (hf.1 _ rfl) hi he hr) hop
  · have hmoves := moves_invariant (fun m : SessionMap => m.Wf ∧ m.Newest sid hash idle) (fun m m' hi hm =>
      ⟨hi.1.move hm, hi.2.move hi.1 hm fun hash' token now hop => absurd ⟨hash', token, now, hop⟩ hrefresh⟩)
      (SessionMap.step_moves hf) ⟨hw, h⟩
    exact hmoves.2

/-- What was just issued. -/
theorem issued {policy : SessionPolicy} (hk : m.Kept policy) {e : SessionEntry} {c : IssuedCookies} {now : Timestamp}
    (he : m.sessions sid = some e) (htoken : e.currentToken = some c.token) (hmeta : c.sessionMeta = e.sessionMeta)
    (hidle : e.idleExp ≤ now.plusSecs policy.idleTtlSecs) (hnow : now.IsI64) (hsmall : policy.idleTtlSecs < 2 ^ 63) :
    m.Newest ⟨c.sessionMeta.sid⟩ c.token.hash (now.secs + policy.idleTtlSecs) := by
  have hsid : (⟨c.sessionMeta.sid⟩ : Sid) = sid := by
    rw [hmeta, ← hk.wf.own sid e he]
    rfl
  rw [hsid]
  refine ⟨hk.counted.entry sid e he, fun e' he' => ?_⟩
  obtain rfl := Option.some.inj (he.symm.trans he')
  obtain ⟨gs, g, hg⟩ := (hk.wf.sound sid e he).ends
  constructor
  · rw [hg.token c.token htoken, hg.current_eq]
  · have hsum := Timestamp.plusSecs_le_add hnow (show policy.idleTtlSecs < 2 ^ 64 by omega)
    exact (Timestamp.le_iff.1 hidle).trans hsum

/-- While the session is not expired, its newest refreshes. -/
theorem refreshable (h : m.Newest sid hash idle) (hw : m.Wf) {e : SessionEntry} (he : m.sessions sid = some e)
    {t : Timestamp} (hlive : e.sessionExpiry t m.policy = none) : (m.resolve hash t).refreshable = true := by
  have hsound := hw.sound sid e he
  obtain ⟨rfl, -⟩ := h.entry e he
  have hmem : e.current.tokenHash ∈ e.allHashes :=
    List.mem_append_left _ (List.mem_map_of_mem hsound.current_mem)
  rw [hw.index.resolve he hmem, SessionEntry.classify_of_mem hsound.gens_nodup hlive hsound.current_mem,
    if_pos hsound.current_genNo]
  split_ifs <;> rfl

end SessionMap.Newest

theorem SessionMap.exists_of_refreshable {m : SessionMap} {hash : TokenHash} {t : Timestamp}
    (h : (m.resolve hash t).refreshable = true) :
    ∃ sid e, m.index hash = some sid ∧ m.sessions sid = some e ∧ e.sessionExpiry t m.policy = none := by
  unfold SessionMap.resolve at h
  cases hi : m.index hash with
  | none =>
    rw [hi] at h
    cases h
  | some sid =>
    cases he : m.sessions sid with
    | none =>
      simp only [hi, he] at h
      cases h
    | some e =>
      simp only [hi, he] at h
      exact ⟨sid, e, rfl, he, (SessionEntry.mem_of_refreshable h).1⟩

namespace Tabs

/-! ## In order -/

/-- Answers arrive in order, none is lost and none arrives before it was sent;
    and nobody else refreshes the session that the broker spoke of last. -/
def Orderly (b : Browser) : Action → Prop
  | .serve _ _ now | .signIn _ _ _ _ now => now.IsI64
  | .call (.refresh hash _ _) => ∀ p ∈ b.word, b.map.index hash ≠ some ⟨p.1.sessionMeta.sid⟩
  | .arrive i now => i = 0 ∧ ∀ a ∈ b.answers.head?, a.served ≤ now
  | .lose _ => False
  | _ => True

/-- The browser has the cookies that were spoken of, for as long as was said. -/
def InTune (w : World) (jar : List CookieJar.Cookie) : Option (IssuedCookies × Timestamp) → Prop
  | none => w.site.config.Keeps jar none
  | some (c, served) =>
    ∃ expires, served.secs + w.skew + w.site.config.maxAgeSecs ≤ expires ∧
      w.site.config.Keeps jar (some (c, expires))

/-- With the answers on their way, the browser has what the broker said last. -/
structure InStep (w : World) (policy : SessionPolicy) (b : Browser) : Prop where
  jar : ∃ word, InTune w b.jar word ∧
    b.answers.foldl (fun word a => wordAfter word a.served a.cookies) word = b.word
  word : ∀ p ∈ b.word, Genuine w.site b.map p.1 ∧
    b.map.Newest ⟨p.1.sessionMeta.sid⟩ p.1.token.hash (p.2.secs + policy.idleTtlSecs)

section
variable {w : World} {policy : SessionPolicy} {b : Browser} {actions : List Action} {a : Action}

theorem InTune.keeps {jar : List CookieJar.Cookie} {word : Option (IssuedCookies × Timestamp)}
    (h : InTune w jar word) : ∃ kept, w.site.config.Keeps jar kept := by
  cases word with
  | none => exact ⟨none, h⟩
  | some word =>
    obtain ⟨expires, -, hkeeps⟩ := h
    exact ⟨_, hkeeps⟩

/-- Other cookies change. -/
theorem InTune.frame {jar jar' : List CookieJar.Cookie} {word : Option (IssuedCookies × Timestamp)}
    (h : InTune w jar word) (hjar : ∀ kept, w.site.config.Keeps jar kept → w.site.config.Keeps jar' kept) :
    InTune w jar' word := by
  cases word with
  | none => exact hjar none h
  | some word =>
    obtain ⟨expires, hexpires, hkeeps⟩ := h
    exact ⟨expires, hexpires, hjar _ hkeeps⟩

/-- An answer arrives after it was sent. -/
theorem InTune.arrive {jar : List CookieJar.Cookie} {word : Option (IssuedCookies × Timestamp)} (h : InTune w jar word)
    {answer : Answer} (hfit : answer.Fit) {now : Timestamp} (hnow : answer.served ≤ now)
    (hpos : 0 < w.site.config.maxAgeSecs) (hsmall : w.site.config.maxAgeSecs < 2 ^ 63)
    (hlong : w.site.config.maxAgeSecs ≤ w.longest) :
    InTune w (storeAll (w.receipt ['/'] now) jar ((answer.lines w.site.config).map String.toList))
      (wordAfter word answer.served answer.cookies) := by
  have hkeeps : ∀ kept, w.site.config.Keeps jar kept → w.site.config.Keeps
      (storeAll (w.receipt ['/'] now) jar ((answer.lines w.site.config).map String.toList))
      (keepsAfter w.site.config (w.receipt ['/'] now) kept answer.cookies) :=
    fun kept hkeeps => hfit.keeps hkeeps rfl hsmall
  obtain ⟨kept, hkept⟩ := h.keeps
  have hafter := hkeeps kept hkept
  cases hcookies : answer.cookies with
  | keep =>
    rw [hcookies] at hkeeps
    exact h.frame hkeeps
  | issue c =>
    have hlongest : (w.receipt ['/'] now).longest = w.longest := rfl
    rw [hcookies, keepsAfter, hlongest, min_eq_left hlong, min_eq_left (by exact_mod_cast hlong), if_pos hpos] at hafter
    refine ⟨_, ?_, hafter⟩
    have hle := Timestamp.le_iff.1 hnow
    dsimp only [World.receipt]
    omega
  | clear =>
    rw [hcookies] at hafter
    exact hafter

/-- The broker says something of the cookies, or nothing. -/
theorem InStep.say {b' : Browser} (h : InStep w policy b) (hjar : b'.jar = b.jar) {answers : List Answer}
    (hanswers : b'.answers = b.answers ++ answers)
    (hword : b'.word = answers.foldl (fun word a => wordAfter word a.served a.cookies) b.word)
    (hnewest : ∀ p ∈ b'.word, Genuine w.site b'.map p.1 ∧
      b'.map.Newest ⟨p.1.sessionMeta.sid⟩ p.1.token.hash (p.2.secs + policy.idleTtlSecs)) :
    InStep w policy b' := by
  obtain ⟨word, htune, hfold⟩ := h.jar
  refine ⟨⟨word, hjar ▸ htune, ?_⟩, hnewest⟩
  rw [hanswers, List.foldl_append, hfold, hword]

/-- An operation that does not refresh the session. -/
theorem InStep.kept (h : InStep w policy b) {m' : SessionMap} {op : Op} (hk : b.map.Kept policy)
    (hf : op.FreshIn b.map) (hm : m' = b.map.step op)
    (hop : ∀ hash token now, op = .refresh hash token now →
      ∀ p ∈ b.word, b.map.index hash ≠ some ⟨p.1.sessionMeta.sid⟩) :
    ∀ p ∈ b.word, Genuine w.site m' p.1 ∧
      m'.Newest ⟨p.1.sessionMeta.sid⟩ p.1.token.hash (p.2.secs + policy.idleTtlSecs) := by
  intro p hp
  obtain ⟨hgenuine, hnewest⟩ := h.word p hp
  have hq : b.map.queue <+: (b.map.step op).queue :=
    moves_invariant (fun m => b.map.queue <+: m.queue) (fun _ _ hq hm => hq.trans hm.queue)
      (SessionMap.step_moves hf) (List.prefix_refl _)
  subst hm
  exact ⟨hgenuine.mono hq, hnewest.step hk.wf hf fun hash token now heq => hop hash token now heq p hp⟩

/-- **Every step keeps the browser in step.** -/
theorem InStep.step (h : InStep w policy b) (hidle : w.site.config.maxAgeSecs = policy.idleTtlSecs)
    (hpos : 0 < policy.idleTtlSecs) (hsmall : policy.idleTtlSecs < 2 ^ 63) (hlong : policy.idleTtlSecs ≤ w.longest)
    (hk : b.map.Kept policy) (hhonest : Honest w b) (hp : a.Proper w) (ho : Orderly b a)
    (hf : ∀ op, Draws [op] [a] → op.FreshIn b.map) (hk' : (b.step w a).map.Kept policy)
    (hb' : (b.step w a).map.Backed (Drawn w.site)) : InStep w policy (b.step w a) := by
  cases a with
  | ask | abort => exact h.say rfl (List.append_nil _).symm rfl h.word
  | lose => exact ho.elim
  | call op =>
    refine h.say rfl (List.append_nil _).symm rfl (h.kept hk (hf op ?_) rfl ?_)
    · exact ⟨by cases op <;> exact List.Sublist.refl _, by cases op <;> exact List.Sublist.refl _⟩
    · rintro hash token now rfl
      exact ho
  | signIn sid custody sub token now =>
    refine h.say rfl rfl rfl ?_
    rintro _ ⟨⟩
    have he := Function.update_self sid (some (SessionMap.newEntry b.map.policy sid custody sub token now)) b.map.sessions
    refine ⟨hb'.issued hk'.wf he rfl rfl, SessionMap.Newest.issued hk' he rfl rfl ?_ ho hsmall⟩
    rw [← hk.policy]
    exact min_le_left _ _
  | other line path now =>
    obtain ⟨-, hforeign⟩ := hp.2 line path now rfl
    obtain ⟨word, htune, hfold⟩ := h.jar
    exact ⟨⟨word, htune.frame fun kept hkeeps => hkeeps.store hforeign, hfold⟩, h.word⟩
  | arrive i now =>
    obtain ⟨rfl, htime⟩ := ho
    obtain ⟨word, htune, hfold⟩ := h.jar
    cases hanswers : b.answers with
    | nil =>
      have hsame : b.step w (.arrive 0 now) = b := by simp [Browser.step, hanswers]
      exact hsame.symm ▸ h
    | cons answer answers =>
      have hstep : b.step w (.arrive 0 now) =
          { b with
            jar := storeAll (w.receipt ['/'] now) b.jar ((answer.lines w.site.config).map String.toList)
            answers := answers } := by
        simp [Browser.step, hanswers]
      rw [hanswers] at htime hfold
      have hmem : answer ∈ b.answers := hanswers ▸ List.mem_cons_self
      have hfit : answer.Fit := fun c hc => (hhonest.answers answer hmem c hc).1.cookieText
      have htune' := htune.arrive hfit (htime answer rfl) (hidle ▸ hpos) (hidle ▸ hsmall) (hidle ▸ hlong)
      rw [hstep]
      exact ⟨⟨_, htune', hfold⟩, h.word⟩
  | serve i token now =>
    cases hasked : b.asked[i]? with
    | none =>
      have hsame : b.step w (.serve i token now) = b := by simp only [Browser.step, hasked]
      exact hsame.symm ▸ h
    | some asked =>
      obtain ⟨route, req⟩ := asked
      have hstep : b.step w (.serve i token now) =
          let served := serve w.site b.map { req with now } token route
          { b with
            map := served.map
            asked := b.asked.eraseIdx i
            answers := b.answers ++ [⟨served.response.cookies, false, now⟩]
            word := wordAfter b.word now served.response.cookies } := by
        simp only [Browser.step, hasked]
      rw [hstep] at hk' hb' ⊢
      refine h.say rfl rfl rfl ?_
      dsimp only at hk' hb' ⊢
      rcases @serve_cases w.site b.map { req with now } token route with
        ⟨hash, issued, -, hissued, hcookies, hmap⟩ | ⟨hcookies, hmap⟩
      · rw [hcookies]
        rintro _ ⟨⟩
        rw [hmap] at hk' hb' ⊢
        obtain ⟨sid, e, he, htoken, hmeta, hslid⟩ := SessionMap.refresh_issues hissued
        rw [hk.policy] at hslid
        exact ⟨hb'.issued hk'.wf he htoken hmeta, SessionMap.Newest.issued hk' he htoken hmeta hslid ho hsmall⟩
      · have hword : ∀ p ∈ b.word,
            Genuine w.site (serve w.site b.map { req with now } token route).map p.1 ∧
            (serve w.site b.map { req with now } token route).map.Newest ⟨p.1.sessionMeta.sid⟩ p.1.token.hash
              (p.2.secs + policy.idleTtlSecs) := by
          rcases hmap with hmap | ⟨sid, hmap⟩
          · rw [hmap]
            exact h.word
          · have hfresh : (Op.tombstone sid .loggedOut now).FreshIn b.map := by
              constructor
              · rintro _ ⟨⟩
              · rintro _ ⟨⟩
            refine h.kept hk hfresh hmap ?_
            rintro _ _ _ ⟨⟩
        rcases hcookies with hcookies | hcookies
        · rw [hcookies]
          exact hword
        · rw [hcookies]
          rintro _ ⟨⟩

theorem freshIn_run (hf : FreshDraws (actions ++ [a])) {op : Op} (hop : Draws [op] [a]) :
    op.FreshIn (run (Browser.step w) (.init policy) actions).map := by
  obtain ⟨ops, hmap, hdraws⟩ := map_from (w := w) (.init policy) actions
  rw [hmap]
  exact (((hdraws.append hop).fresh hf).from policy).freshIn

theorem inStep_run (hidle : w.site.config.maxAgeSecs = policy.idleTtlSecs) (hpos : 0 < policy.idleTtlSecs)
    (hsmall : policy.idleTtlSecs < 2 ^ 63) (hlong : policy.idleTtlSecs ≤ w.longest) (hf : FreshDraws actions)
    (hp : ∀ a ∈ actions, a.Proper w) (ho : Along (Browser.step w) Orderly (.init policy) actions) :
    InStep w policy (run (Browser.step w) (.init policy) actions) := by
  refine @run_invariant _ _ (Browser.step w) (.init policy)
    (fun actions => FreshDraws actions ∧ (∀ a ∈ actions, a.Proper w) ∧
      Along (Browser.step w) Orderly (.init policy) actions)
    (fun _ => InStep w policy) ?_ ?_ ?_ actions ⟨hf, hp, ho⟩
  · rintro actions a ⟨hf, hp, ho⟩
    exact ⟨hf.of_append, fun a' ha' => hp a' (List.mem_append_left _ ha'), (along_append.1 ho).1⟩
  · exact ⟨⟨none, ⟨rfl, rfl⟩, rfl⟩, nofun⟩
  · rintro actions a ⟨hf, hp, ho⟩ hstep
    have hp₀ : ∀ a' ∈ actions, a'.Proper w := fun a' ha' => hp a' (List.mem_append_left _ ha')
    obtain ⟨hk, -⟩ := backed_run policy hf.of_append hp₀
    obtain ⟨hk', hb'⟩ := backed_run policy hf hp
    have hhonest := honest_run policy (hidle ▸ hsmall) hf.of_append hp₀
    rw [run_concat] at hk' hb'
    exact hstep.step hidle hpos hsmall hlong hk hhonest (hp a (by simp)) (along_append.1 ho).2.1
      (fun op hop => freshIn_run hf hop) hk' hb'

/-- **As long as the session lives.**  Where answers arrive in order and none is
    lost, and nobody else refreshes the browser's session, a page whose browser
    has heard all answers is signed in for as long as the session that the broker
    spoke of last is there and not expired: its refresh then succeeds, and only
    then. -/
theorem signed_in_as_long_as_alive (w : World) (policy : SessionPolicy)
    (hidle : w.site.config.maxAgeSecs = policy.idleTtlSecs) (hpos : 0 < policy.idleTtlSecs)
    (hsmall : policy.idleTtlSecs < 2 ^ 63) (hlong : policy.idleTtlSecs ≤ w.longest) (actions : List Action)
    (hfresh : FreshDraws actions) (hproper : ∀ a ∈ actions, a.Proper w)
    (horderly : Along (Browser.step w) Orderly (.init policy) actions) (rest : Text) (req : Request)
    (token : SessionToken) (horigin : req.secFetchSite.bind headerText = some "same-origin") :
    let b := run (Browser.step w) (.init policy) actions
    b.answers = [] →
      ((postRefresh w.site b.map { req with cookies := b.headers w ('/' :: rest) req.now } token).response.status =
          200 ↔
        ∃ p ∈ b.word, ∃ e, b.map.sessions ⟨p.1.sessionMeta.sid⟩ = some e ∧
          e.sessionExpiry req.now policy = none) := by
  intro b hheard
  have hstep : InStep w policy b := inStep_run hidle hpos hsmall hlong hfresh hproper horderly
  have hhonest : Honest w b := honest_run policy (hidle ▸ hsmall) hfresh hproper
  obtain ⟨hk, -⟩ : b.map.Kept policy ∧ b.map.Backed (Drawn w.site) := backed_run policy hfresh hproper
  obtain ⟨word, htune, hword⟩ := hstep.jar
  rw [hheard] at hword
  obtain rfl : word = b.word := hword
  have hok := @postRefresh_ok w.site b.map { req with cookies := b.headers w ('/' :: rest) req.now } token horigin
  rw [hok]
  have hpresented : ∀ kept, w.site.config.Keeps b.jar kept →
      SessionLane.presented w.site { req with cookies := b.headers w ('/' :: rest) req.now } =
        ((kept.filter fun p => req.now.secs + w.skew < p.2).map (·.1.token.value)).map w.site.tokenHash := by
    intro kept hkeeps
    exact congrArg (Option.map w.site.tokenHash) (hkeeps.presented hhonest.tidy (req.now.secs + w.skew) rest)
  cases hsaid : b.word with
  | none =>
    rw [hsaid] at htune
    rw [hpresented none htune]
    simp
  | some said =>
    obtain ⟨c, served⟩ := said
    obtain ⟨⟨⟨-, hhash⟩, hissued⟩, hnewest⟩ := hstep.word _ hsaid
    rw [hsaid] at htune
    obtain ⟨expires, hexpires, hkeeps⟩ := htune
    rw [hpresented _ hkeeps]
    dsimp only at hhash hissued hnewest ⊢
    constructor
    · rintro ⟨hash, hpresents, hrefreshable⟩
      obtain ⟨value, hvalue, rfl⟩ := Option.map_eq_some_iff.1 hpresents
      obtain ⟨p, hp, rfl⟩ := Option.map_eq_some_iff.1 hvalue
      obtain rfl := Option.some.inj (Option.mem_filter_iff.1 hp).1
      rw [hhash] at hrefreshable
      obtain ⟨sid, e, hindex, he, hlive⟩ := SessionMap.exists_of_refreshable hrefreshable
      -- the hash is indexed to the session that it was issued to
      obtain ⟨createdAt, activeUntil, hmem, -⟩ := hissued
      have hto : c.token.hash ∈ b.map.issuedTo ⟨c.sessionMeta.sid⟩ := List.mem_filterMap.2 ⟨_, hmem, if_pos rfl⟩
      obtain rfl := hk.killings.owner _ _ hto sid hindex
      exact ⟨_, rfl, e, he, hk.policy ▸ hlive⟩
    · rintro ⟨p, hp, e, he, hlive⟩
      obtain rfl := Option.some.inj hp
      have hrefreshable := hnewest.refreshable hk.wf he (hk.policy.symm ▸ hlive)
      obtain ⟨-, hle⟩ := hnewest.entry e he
      obtain ⟨-, -, hlt, -⟩ := SessionEntry.sessionExpiry_eq_none.1 hlive
      have hlate : req.now.secs + w.skew < expires := by
        have hsecs := Timestamp.lt_iff.1 hlt
        rw [hidle] at hexpires
        omega
      refine ⟨c.token.hash, ?_, hrefreshable⟩
      simp [hlate, hhash]

end

/-- A sign-in that has arrived. -/
def signedIn : List Action := [.signIn ⟨"s"⟩ ⟨"c"⟩ "alice" .sample1 ⟨0⟩, .arrive 0 ⟨1⟩]

theorem signed_in_eleven_minutes :
    (postRefresh World.sample.site (run (Browser.step .sample) (.init {}) signedIn).map
      { pageRefresh ⟨700⟩ with
        cookies := (run (Browser.step .sample) (.init {}) signedIn).headers .sample ['/'] (pageRefresh ⟨700⟩).now }
      .sample2).response.status = 200 := by
  have hproper : ∀ a ∈ signedIn, a.Proper .sample := by
    simp [signedIn, Action.Proper, Action.tokens, World.sample, drawn_sample1]
  have horderly : Along (Browser.step .sample) Orderly (.init {}) signedIn := by
    simp [signedIn, Along, Orderly, Timestamp.IsI64, Browser.init, Browser.step, Timestamp.le_iff]
  have hsite : ((pageRefresh ⟨700⟩).secFetchSite.bind headerText) = some "same-origin" := by decide +kernel
  have hiff := signed_in_as_long_as_alive .sample {} (by decide) (by decide) (by decide) (by decide) signedIn
    (by decide +kernel) hproper horderly [] (pageRefresh ⟨700⟩) .sample2 hsite
  generalize hb : run (Browser.step .sample) (.init {}) signedIn = b at hiff ⊢
  have hb : b.answers = [] ∧
      b.word = some (((SessionMap.withDurability {}).create ⟨"s"⟩ ⟨"c"⟩ "alice" .sample1 ⟨0⟩).2, ⟨0⟩) ∧
      b.map = ((SessionMap.withDurability {}).create ⟨"s"⟩ ⟨"c"⟩ "alice" .sample1 ⟨0⟩).1 := by
    subst hb
    simp [signedIn, run, Browser.step, Browser.init]
  obtain ⟨hheard, hword, hmap⟩ := hb
  refine (hiff hheard).2 ?_
  rw [hword, hmap]
  have he := Function.update_self (⟨"s"⟩ : Sid)
    (some (SessionMap.newEntry {} ⟨"s"⟩ ⟨"c"⟩ "alice" .sample1 ⟨0⟩)) (SessionMap.withDurability {}).sessions
  exact ⟨_, rfl, _, he, by decide⟩

end Tabs

end SessionBroker
