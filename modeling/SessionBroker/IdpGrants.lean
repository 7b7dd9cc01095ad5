/-
  What the identity provider grants (`mock-idp`), over whole runs, whatever the
  order in which the calls take the lock.

  * `Call.Advances` is what one lock of a call can do;
  * `Coded`: a code and what it was authorized for; every record and every call
    that got past its grant goes back to one (`Sound`);
  * `Once`: what was spent was spent by one call, and is dead: a code, and a
    refresh token where they rotate;
  * `revoked_for_good`: who revokes a token before it is spent, wins.
-/
import SessionBroker.MockIdp
import SessionBroker.Lib.Spent

namespace SessionBroker.MockIdp

open Runs Checks

/-! ## One lock -/

/-- The call got its grant. -/
def Phase.past : Phase → Bool
  | .redeemed .. | .issued .. | .granted .. | .signing _ | .failed .. | .answered .. => true
  | .arrived | .admitted _ | .refused _ => false

/-- What a call shows of itself. -/
abbrev Call.Shows (env : Env) (call : Call) (clientId : String) : Prop :=
  authenticateClient env call.authorization call.form = .ok clientId

/-- **What one lock of a call does.** -/
inductive Call.Advances (env : Env) (call : Call) (s : Inner) (drawn : String) (now : ℤ) :
    Phase → Inner → Phase → Prop
  | authenticate {clientId : String} (h : call.Shows env clientId) :
      call.Advances env s drawn now .arrived s (.admitted clientId)
  | refuse {p : Phase} {failNext : Option FailNext} {e : OAuthError} (h : p.past = false) :
      call.Advances env s drawn now p { s with failNext } (.refused e)
  | redeem {clientId code redirectUri verifier : String} {record : AuthCode}
      (htype : call.form.grantType = some "authorization_code") (hcode : call.form.code = some code)
      (huri : call.form.redirectUri = some redirectUri)
      (hverifier : call.form.codeVerifier = some verifier)
      (hrecord : s.authCodes code = some record) (hused : record.used = false)
      (hlive : now < record.expiresAt) (hclient : record.clientId = clientId)
      (hredirect : record.redirectUri = redirectUri)
      (hpkce : env.pkceMatches verifier record.codeChallenge = true) :
      call.Advances env s drawn now (.admitted clientId)
        (s.storeAuthCode code { record with used := true }) (.redeemed record clientId now)
  | refresh {clientId presented : String} {record : RefreshTokenRecord}
      (htype : call.form.grantType = some "refresh_token")
      (htoken : call.form.refreshToken = some presented)
      (hrecord : s.refreshTokens presented = some record) (hrevoked : record.revoked = false)
      (hlive : now < record.expiresAt) (hclient : record.clientId = clientId)
      (hkeep : s.runtime.rotateRefreshTokens = false) :
      call.Advances env s drawn now (.admitted clientId) s
        (.granted ⟨record.subject, record.scope, presented⟩ clientId now)
  | rotate {clientId presented : String} {record : RefreshTokenRecord}
      (htype : call.form.grantType = some "refresh_token")
      (htoken : call.form.refreshToken = some presented)
      (hrecord : s.refreshTokens presented = some record) (hrevoked : record.revoked = false)
      (hlive : now < record.expiresAt) (hclient : record.clientId = clientId)
      (hrotate : s.runtime.rotateRefreshTokens = true) :
      call.Advances env s drawn now (.admitted clientId)
        (Inner.insertRefresh { s with refreshTokens := Function.update s.refreshTokens presented none }
          drawn record.subject record.clientId record.scope now)
        (.granted ⟨record.subject, record.scope, drawn⟩ clientId now)
  | issueAccess {record : AuthCode} {clientId : String} {at_ : ℤ} :
      call.Advances env s drawn now (.redeemed record clientId at_)
        (s.issueAccessToken drawn record.subject clientId record.scope at_).1
        (.issued record clientId at_ drawn
          (s.issueAccessToken drawn record.subject clientId record.scope at_).2)
  | issueRefresh {record : AuthCode} {clientId accessToken : String} {at_ expiresIn : ℤ} :
      call.Advances env s drawn now (.issued record clientId at_ accessToken expiresIn)
        (s.issueRefreshToken drawn record.subject clientId record.scope at_)
        (.signing ⟨record.subject, record.scope, record.nonce, clientId, at_, accessToken, expiresIn, drawn⟩)
  | reissue {grant : RefreshGrant} {clientId : String} {at_ : ℤ} :
      call.Advances env s drawn now (.granted grant clientId at_)
        (s.issueAccessToken drawn grant.subject clientId grant.scope at_).1
        (.signing ⟨grant.subject, grant.scope, none, clientId, at_, drawn,
          (s.issueAccessToken drawn grant.subject clientId grant.scope at_).2, grant.refreshToken⟩)
  | answer {tokens : Tokens} (response : TokenResponse) :
      call.Advances env s drawn now (.signing tokens) s (.answered tokens response)
  | fail {tokens : Tokens} (e : OAuthError) :
      call.Advances env s drawn now (.signing tokens) s (.failed tokens e)
  | rest (p : Phase) : call.Advances env s drawn now p s p

section
variable {env : Env} {s : Inner} {call : Call} {drawn : String} {now : ℤ}

theorem startCodeGrant_advances {clientId : String}
    (htype : call.form.grantType = some "authorization_code") :
    call.Advances env s drawn now (.admitted clientId) (startCodeGrant env s call.form clientId now).1
      (startCodeGrant env s call.form clientId now).2 := by
  unfold startCodeGrant
  split
  · rename_i code redirectUri verifier hcode huri hverifier
    unfold Inner.redeemAuthCode
    cases hrecord : s.authCodes code with
    | none => exact .refuse rfl
    | some record =>
      dsimp only
      by_cases hused : record.used = true
      · rw [if_pos hused]
        exact .refuse rfl
      by_cases hlive : record.expiresAt ≤ now
      · rw [if_neg hused, if_pos hlive]
        exact .refuse rfl
      by_cases hclient : record.clientId = clientId
      swap
      · rw [if_neg hused, if_neg hlive, if_pos hclient]
        exact .refuse rfl
      by_cases hredirect : record.redirectUri = redirectUri
      swap
      · rw [if_neg hused, if_neg hlive, if_neg (not_not.2 hclient), if_pos hredirect]
        exact .refuse rfl
      rw [if_neg hused, if_neg hlive, if_neg (not_not.2 hclient), if_neg (not_not.2 hredirect)]
      split_ifs with hpkce
      · exact .refuse rfl
      · exact .redeem htype hcode huri hverifier hrecord (by simpa using hused) (not_le.1 hlive) hclient
          hredirect (by simpa using hpkce)
  · exact .refuse rfl

theorem startRefreshGrant_advances {clientId : String}
    (htype : call.form.grantType = some "refresh_token") :
    call.Advances env s drawn now (.admitted clientId)
      (startRefreshGrant s call.form clientId drawn now).1
      (startRefreshGrant s call.form clientId drawn now).2 := by
  unfold startRefreshGrant
  cases htoken : call.form.refreshToken with
  | none => exact .refuse rfl
  | some presented =>
    dsimp only
    unfold Inner.refreshGrant
    cases hrecord : s.refreshTokens presented with
    | none => exact .refuse rfl
    | some record =>
      dsimp only
      by_cases hrevoked : record.revoked = true
      · rw [if_pos hrevoked]
        exact .refuse rfl
      by_cases hlive : record.expiresAt ≤ now
      · rw [if_neg hrevoked, if_pos hlive]
        exact .refuse rfl
      by_cases hclient : record.clientId = clientId
      swap
      · rw [if_neg hrevoked, if_neg hlive, if_pos hclient]
        exact .refuse rfl
      rw [if_neg hrevoked, if_neg hlive, if_neg (not_not.2 hclient)]
      have hfresh : record.revoked = false := by simpa using hrevoked
      split_ifs with hrotate
      · exact .rotate htype htoken hrecord hfresh (not_le.1 hlive) hclient hrotate
      · exact .refresh htype htoken hrecord hfresh (not_le.1 hlive) hclient (by simpa using hrotate)

theorem advance_advances (env : Env) (s : Inner) (call : Call) (drawn : String) (now : ℤ) :
    call.Advances env s drawn now call.phase (call.advance env s drawn now).1
      (call.advance env s drawn now).2 := by
  unfold Call.advance
  cases call.phase with
  | arrived =>
    dsimp only
    unfold Inner.takeFailNext
    cases h : s.failNext with
    | some fail => exact .refuse rfl
    | none =>
      dsimp only
      cases hauth : authenticateClient env call.authorization call.form with
      | error e => exact .refuse rfl
      | ok clientId => exact .authenticate hauth
  | admitted clientId =>
    have htype : ∀ text, text ≠ "" → call.form.grantType.getD "" = text →
        call.form.grantType = some text := by
      intro text hne htext
      cases h : call.form.grantType with
      | none => exact absurd (by rw [← htext, h]; rfl) hne
      | some grantType =>
        rw [h] at htext
        exact congrArg some htext
    dsimp only
    split_ifs with hcode hrefresh hnone
    · exact startCodeGrant_advances (htype _ (by simp) hcode)
    · exact startRefreshGrant_advances (htype _ (by simp) hrefresh)
    · exact .refuse rfl
    · exact .refuse rfl
  | redeemed record clientId at_ => exact .issueAccess
  | issued record clientId at_ accessToken expiresIn => exact .issueRefresh
  | granted grant clientId at_ => exact .reissue
  | signing tokens =>
    dsimp only
    split
    · exact .answer _
    · exact .fail _
  | refused e => exact .rest _
  | failed tokens e => exact .rest _
  | answered tokens response => exact .rest _

end

/-! ## Where a record comes from -/

/-- The code was given out for this. -/
def Coded (env : Env) (actions : List Action) (code : String) (record : AuthCode) : Prop :=
  ∃ params now, .authorize params code now ∈ actions ∧ authorizeRequest env params now = .ok record

/-- Some code was given out for this subject, client and scope. -/
def Sprung (env : Env) (actions : List Action) (subject clientId scope : String) : Prop :=
  ∃ code record, Coded env actions code record ∧ record.subject = subject ∧
    record.clientId = clientId ∧ record.scope = scope

/-- A call that redeemed the code it shows, in time and with the verifier. -/
structure Redeems (env : Env) (actions : List Action) (form : TokenForm) (clientId : String)
    (record : AuthCode) (at_ : ℤ) : Prop where
  type : form.grantType = some "authorization_code"
  code : ∃ code, form.code = some code ∧ Coded env actions code record
  redirectUri : form.redirectUri = some record.redirectUri
  verifier : ∃ verifier, form.codeVerifier = some verifier ∧
    env.pkceMatches verifier record.codeChallenge = true
  client : record.clientId = clientId
  live : at_ < record.expiresAt

/-- What the tokens of a call are for. -/
structure Entitled (env : Env) (actions : List Action) (call : Call) (tokens : Tokens) : Prop where
  shows : call.Shows env tokens.clientId
  sprung : Sprung env actions tokens.subject tokens.clientId tokens.scope
  redeems : call.form.grantType = some "authorization_code" → ∃ record,
    Redeems env actions call.form tokens.clientId record tokens.now ∧ record.subject = tokens.subject ∧
    record.scope = tokens.scope ∧ record.nonce = tokens.nonce

/-- What is true of a call in its phase. -/
def Call.Sound (env : Env) (actions : List Action) (call : Call) : Phase → Prop
  | .arrived | .refused _ => True
  | .admitted clientId => call.Shows env clientId
  | .redeemed record clientId at_ | .issued record clientId at_ _ _ =>
    call.Shows env clientId ∧ Redeems env actions call.form clientId record at_
  | .granted grant clientId _ => call.Shows env clientId ∧
    call.form.grantType = some "refresh_token" ∧ Sprung env actions grant.subject clientId grant.scope
  | .signing tokens | .failed tokens _ | .answered tokens _ => Entitled env actions call tokens

/-- Every record goes back to a code. -/
structure Inner.Sound (env : Env) (actions : List Action) (s : Inner) : Prop where
  code : ∀ code record, s.authCodes code = some record →
    Coded env actions code { record with used := false }
  access : ∀ token record, s.accessTokens token = some record →
    Sprung env actions record.subject record.clientId record.scope
  refresh : ∀ token record, s.refreshTokens token = some record →
    Sprung env actions record.subject record.clientId record.scope

/-- What every run keeps. -/
structure Sound (env : Env) (actions : List Action) (s : Idp) : Prop where
  inner : s.inner.Sound env actions
  call : ∀ call ∈ s.calls, call.Sound env actions call.phase

section
variable {env : Env} {actions actions' : List Action}

theorem Coded.mono (hsub : actions ⊆ actions') {code : String} {record : AuthCode}
    (h : Coded env actions code record) : Coded env actions' code record := by
  obtain ⟨params, now, hmem, hrequest⟩ := h
  exact ⟨params, now, hsub hmem, hrequest⟩

theorem Sprung.mono (hsub : actions ⊆ actions') {subject clientId scope : String}
    (h : Sprung env actions subject clientId scope) : Sprung env actions' subject clientId scope := by
  obtain ⟨code, record, hcoded, hrest⟩ := h
  exact ⟨code, record, hcoded.mono hsub, hrest⟩

theorem Redeems.mono (hsub : actions ⊆ actions') {form : TokenForm} {clientId : String}
    {record : AuthCode} {at_ : ℤ} (h : Redeems env actions form clientId record at_) :
    Redeems env actions' form clientId record at_ := by
  obtain ⟨code, hcode, hcoded⟩ := h.code
  exact { h with code := ⟨code, hcode, hcoded.mono hsub⟩ }

theorem Redeems.sprung {form : TokenForm} {clientId : String} {record : AuthCode} {at_ : ℤ}
    (h : Redeems env actions form clientId record at_) :
    Sprung env actions record.subject clientId record.scope := by
  obtain ⟨code, -, hcoded⟩ := h.code
  exact ⟨code, record, hcoded, rfl, h.client, rfl⟩

theorem Entitled.mono (hsub : actions ⊆ actions') {call : Call} {tokens : Tokens}
    (h : Entitled env actions call tokens) : Entitled env actions' call tokens where
  shows := h.shows
  sprung := h.sprung.mono hsub
  redeems htype := by
    obtain ⟨record, hredeems, hrest⟩ := h.redeems htype
    exact ⟨record, hredeems.mono hsub, hrest⟩

theorem Call.Sound.mono (hsub : actions ⊆ actions') {call : Call} {p : Phase}
    (h : call.Sound env actions p) : call.Sound env actions' p := by
  cases p with
  | arrived => trivial
  | refused => trivial
  | admitted => exact h
  | redeemed => exact ⟨h.1, h.2.mono hsub⟩
  | issued => exact ⟨h.1, h.2.mono hsub⟩
  | granted => exact ⟨h.1, h.2.1, h.2.2.mono hsub⟩
  | signing => exact Entitled.mono hsub h
  | failed => exact Entitled.mono hsub h
  | answered => exact Entitled.mono hsub h

theorem Inner.Sound.mono {s : Inner} (hsub : actions ⊆ actions') (h : s.Sound env actions) :
    s.Sound env actions' where
  code code record hr := (h.code code record hr).mono hsub
  access token record hr := (h.access token record hr).mono hsub
  refresh token record hr := (h.refresh token record hr).mono hsub

/-- What holds of all values holds after one of them is set. -/
theorem forall_update {α : Type} {m : String → Option α} {P : String → α → Prop} {k : String} {o : Option α}
    (h : ∀ k a, m k = some a → P k a) (ho : ∀ a, o = some a → P k a) :
    ∀ k' a, Function.update m k o k' = some a → P k' a := by
  intro k' a hk
  rw [Function.update_apply] at hk
  split_ifs at hk with heq
  · subst heq
    exact ho a hk
  · exact h k' a hk

section
variable {s : Inner} {drawn subject clientId scope : String} {now : ℤ}

theorem Inner.Sound.issueAccess (h : s.Sound env actions) (hs : Sprung env actions subject clientId scope) :
    (s.issueAccessToken drawn subject clientId scope now).1.Sound env actions :=
  { h with access := forall_update h.access (by rintro _ ⟨⟩; exact hs) }

theorem Inner.Sound.insertRefresh (h : s.Sound env actions) (hs : Sprung env actions subject clientId scope) :
    (s.insertRefresh drawn subject clientId scope now).Sound env actions :=
  { h with refresh := forall_update h.refresh (by rintro _ ⟨⟩; exact hs) }

end

/-- **One lock keeps everything sound.** -/
theorem Call.Advances.sound {call : Call} {s s' : Inner} {drawn : String} {now : ℤ} {p p' : Phase}
    (h : call.Advances env s drawn now p s' p') (hs : s.Sound env actions)
    (hc : call.Sound env actions p) : s'.Sound env actions ∧ call.Sound env actions p' := by
  cases h with
  | authenticate hshows => exact ⟨hs, hshows⟩
  | refuse hp => exact ⟨⟨hs.code, hs.access, hs.refresh⟩, trivial⟩
  | @redeem clientId code redirectUri verifier record htype hcode huri hverifier hrecord hused hlive hclient
      hredirect hpkce =>
    have hcoded : Coded env actions code record := by
      have hback := hs.code code record hrecord
      rwa [← hused] at hback
    refine ⟨{ hs with code := forall_update hs.code ?_ }, hc, htype, ⟨code, hcode, hcoded⟩,
      huri.trans (congrArg some hredirect.symm), ⟨verifier, hverifier, hpkce⟩, hclient, hlive⟩
    rintro _ ⟨⟩
    exact hs.code code record hrecord
  | @refresh clientId presented record htype htoken hrecord hrevoked hlive hclient hkeep =>
    have hsprung := hs.refresh presented record hrecord
    rw [hclient] at hsprung
    exact ⟨hs, hc, htype, hsprung⟩
  | @rotate clientId presented record htype htoken hrecord hrevoked hlive hclient hrotate =>
    have hsprung := hs.refresh presented record hrecord
    have hremoved : Inner.Sound env actions
        { s with refreshTokens := Function.update s.refreshTokens presented none } :=
      { hs with refresh := forall_update hs.refresh nofun }
    refine ⟨hremoved.insertRefresh hsprung, hc, htype, ?_⟩
    rwa [← hclient]
  | issueAccess => exact ⟨hs.issueAccess hc.2.sprung, hc⟩
  | @issueRefresh record clientId accessToken at_ expiresIn =>
    refine ⟨hs.insertRefresh hc.2.sprung, hc.1, hc.2.sprung, fun _ => ?_⟩
    exact ⟨record, hc.2, rfl, rfl, rfl⟩
  | reissue =>
    refine ⟨hs.issueAccess hc.2.2, hc.1, hc.2.2, fun htype => ?_⟩
    rw [hc.2.1] at htype
    simp at htype
  | answer => exact ⟨hs, hc⟩
  | fail => exact ⟨hs, hc⟩
  | rest => exact ⟨hs, hc⟩

end

/-! ## Each once -/

/-- What a call has spent, of what it shows for a grant of this type. -/
def Call.spent (grantType : String) (shown : TokenForm → Option String) (call : Call) : Option String :=
  if call.phase.past ∧ call.form.grantType = some grantType then shown call.form else none

/-- The refresh token that a call was granted tokens on. -/
def Call.spentToken : Call → Option String := Call.spent "refresh_token" (·.refreshToken)

section
variable {env : Env} {call : Call} {s s' : Inner} {drawn : String} {now : ℤ} {phase : Phase}

theorem Call.spent_of_not_past {grantType : String} {shown : TokenForm → Option String}
    (h : call.phase.past = false) : call.spent grantType shown = none := by
  rw [Call.spent, if_neg]
  rw [h]
  rintro ⟨hfalse, -⟩
  cases hfalse

theorem Call.spent_setPhase {grantType : String} {shown : TokenForm → Option String}
    (h : phase.past = call.phase.past) :
    ({ call with phase } : Call).spent grantType shown = call.spent grantType shown := by
  unfold Call.spent
  rw [h]

theorem Call.spent_other {grantType other : String} {shown : TokenForm → Option String}
    (h : call.form.grantType = some other) (hne : other ≠ grantType) :
    call.spent grantType shown = none := by
  rw [Call.spent, if_neg]
  rintro ⟨-, htype⟩
  rw [h] at htype
  exact hne (Option.some.inj htype)

/-- What one lock spends of refresh tokens: nothing, or one that was not revoked, and that a
    rotation removes. -/
theorem Call.Advances.spends_token {p : Phase} (h : call.Advances env s drawn now p s' phase)
    (hp : call.phase = p) :
    ({ call with phase } : Call).spentToken = call.spentToken ∨
    call.spentToken = none ∧ ∃ token record, ({ call with phase } : Call).spentToken = some token ∧
      s.refreshTokens token = some record ∧ record.revoked = false ∧
      (s.runtime.rotateRefreshTokens = true → token ≠ drawn → s'.refreshTokens token = none) := by
  cases h with
  | authenticate => exact Or.inl (Call.spent_setPhase (by rw [hp]; rfl))
  | refuse hnot => exact Or.inl (Call.spent_setPhase (by rw [hp, hnot]; rfl))
  | redeem htype =>
    refine Or.inl ?_
    unfold Call.spentToken
    rw [Call.spent_other htype (by simp), Call.spent_other (by exact htype) (by simp)]
  | @refresh clientId presented record htype htoken hrecord hrevoked hlive hclient hkeep =>
    refine Or.inr ⟨Call.spent_of_not_past (by rw [hp]; rfl), presented, record, ?_, hrecord, hrevoked, ?_⟩
    · exact (if_pos ⟨rfl, htype⟩).trans htoken
    · intro hrotate
      rw [hkeep] at hrotate
      cases hrotate
  | @rotate clientId presented record htype htoken hrecord hrevoked hlive hclient hrotate =>
    refine Or.inr ⟨Call.spent_of_not_past (by rw [hp]; rfl), presented, record, ?_, hrecord, hrevoked, ?_⟩
    · exact (if_pos ⟨rfl, htype⟩).trans htoken
    · intro _ hne
      simp [Inner.insertRefresh, hne]
  | issueAccess | issueRefresh | reissue | answer | fail =>
    exact Or.inl (Call.spent_setPhase (by rw [hp]; rfl))
  | rest => exact Or.inl (Call.spent_setPhase (by rw [hp]))

/-- Nothing but what is drawn comes back to life. -/
theorem Call.Advances.token_kept {p : Phase} (h : call.Advances env s drawn now p s' phase) {token : String}
    {record' : RefreshTokenRecord} (hrecord' : s'.refreshTokens token = some record') :
    token = drawn ∨ s.refreshTokens token = some record' := by
  cases h with
  | rotate =>
    simp only [Inner.insertRefresh, Function.update_apply] at hrecord'
    split_ifs at hrecord' with hdrawn
    · exact Or.inl hdrawn
    · exact Or.inr hrecord'
  | issueRefresh =>
    simp only [Inner.issueRefreshToken, Inner.insertRefresh, Function.update_apply] at hrecord'
    split_ifs at hrecord' with hdrawn
    · exact Or.inl hdrawn
    · exact Or.inr hrecord'
  | authenticate | refuse | redeem | refresh | issueAccess | reissue | answer | fail | rest => exact Or.inr hrecord'

end

/-! ## Whole steps -/

/-- The code has been used. -/
def Inner.Used (s : Inner) (code : String) : Prop :=
  ∀ record, s.authCodes code = some record → record.used = true

/-- The refresh token gets nobody anything. -/
def Inner.Gone (s : Inner) (token : String) : Prop :=
  ∀ record, s.refreshTokens token = some record → record.revoked = true

/-- The refresh tokens that were accepted. -/
def Idp.spentTokens (s : Idp) : List String := s.calls.filterMap Call.spentToken

section
variable {env : Env} {s : Idp} {a : Action}

theorem step_token {token : String} {record' : RefreshTokenRecord}
    (h : (s.step env a).inner.refreshTokens token = some record') : a.draws = some token ∨
      ∃ record, s.inner.refreshTokens token = some record ∧ (record.revoked = true → record'.revoked = true) := by
  cases a with
  | authorize params drawn now =>
    unfold Idp.step authorize at h
    dsimp only at h
    split at h <;> exact Or.inr ⟨record', h, id⟩
  | advance i drawn now =>
    unfold Idp.step at h
    dsimp only at h
    cases hi : s.calls[i]? with
    | none =>
      rw [hi] at h
      exact Or.inr ⟨record', h, id⟩
    | some call =>
      rw [hi] at h
      rcases (advance_advances env s.inner call drawn now).token_kept h with rfl | hrecord
      · exact Or.inl rfl
      · exact Or.inr ⟨record', hrecord, id⟩
  | revoke revoked =>
    simp only [Idp.step, Inner.revokeTokenValue, Function.update_apply] at h
    split_ifs at h with heq
    · obtain ⟨record, hrecord, rfl⟩ := Option.map_eq_some_iff.1 h
      exact Or.inr ⟨record, by rw [heq, hrecord], fun _ => rfl⟩
    · exact Or.inr ⟨record', h, id⟩
  | expire subject now =>
    obtain ⟨record, hrecord, rfl⟩ := Option.map_eq_some_iff.1 h
    refine Or.inr ⟨record, hrecord, fun hrevoked => ?_⟩
    split_ifs <;> exact hrevoked
  | revokeRefresh subject =>
    obtain ⟨record, hrecord, rfl⟩ := Option.map_eq_some_iff.1 h
    refine Or.inr ⟨record, hrecord, fun hrevoked => ?_⟩
    split_ifs
    · rfl
    · exact hrevoked
  | call | setConfig | failNext => exact Or.inr ⟨record', h, id⟩

theorem gone_step {token : String} (h : s.inner.Gone token) (hdraws : a.draws ≠ some token) :
    (s.step env a).inner.Gone token := by
  intro record' hrecord'
  obtain hdrawn | ⟨record, hrecord, hrevoked⟩ := step_token hrecord'
  · exact absurd hdrawn hdraws
  · exact hrevoked (h record hrecord)

/-- What a step spends of refresh tokens. -/
theorem step_spends_token (env : Env) (s : Idp) (a : Action) : (s.step env a).spentTokens = s.spentTokens ∨ ∃ token record,
    (s.step env a).spentTokens.Perm (token :: s.spentTokens) ∧ s.inner.refreshTokens token = some record ∧
    record.revoked = false ∧ (s.inner.runtime.rotateRefreshTokens = true → a.draws ≠ some token →
      (s.step env a).inner.Gone token) := by
  cases a with
  | advance i drawn now =>
    unfold Idp.step Idp.spentTokens
    dsimp only
    cases hi : s.calls[i]? with
    | none => exact Or.inl rfl
    | some call =>
      rcases (advance_advances env s.inner call drawn now).spends_token rfl with
        hsame | ⟨hnone, token, record, hspent, hrecord, hrevoked, hgone⟩
      · exact Or.inl (Spent.set_same hi hsame)
      · refine Or.inr ⟨token, record, Spent.set_new hi hnone hspent, hrecord, hrevoked, ?_⟩
        intro hrotate hdraws record' hrecord'
        rw [hgone hrotate fun heq => hdraws (by rw [heq]; rfl)] at hrecord'
        cases hrecord'
  | call authorization form => exact Or.inl (by simp [Idp.step, Idp.spentTokens, Call.spentToken, Call.spent, Phase.past])
  | authorize | revoke | setConfig | expire | revokeRefresh | failNext => exact Or.inl rfl

end

/-- What was spent: each thing once, after it was drawn, and never again. -/
structure Once (dead : Inner → String → Prop) (spent : Idp → List String) (actions : List Action)
    (s : Idp) : Prop where
  nodup : (spent s).Nodup
  drawn : ∀ t ∈ spent s, t ∈ actions.filterMap Action.draws
  dead : ∀ t ∈ spent s, dead s.inner t

section
variable {actions : List Action} {a : Action}

theorem draws_concat : (actions ++ [a]).filterMap Action.draws =
    actions.filterMap Action.draws ++ a.draws.toList := by
  cases h : a.draws <;> simp [h]

theorem Fresh.of_concat (h : Fresh (actions ++ [a])) : Fresh actions := by
  rw [Fresh, draws_concat] at h
  exact h.of_append_left

theorem Fresh.ne_draws (h : Fresh (actions ++ [a])) {t : String} (ht : t ∈ actions.filterMap Action.draws) :
    a.draws ≠ some t := by
  intro hdraws
  rw [Fresh, draws_concat, hdraws] at h
  exact List.disjoint_of_nodup_append h ht (by simp)

theorem Once.step {dead : Inner → String → Prop} {spent : Idp → List String} {s s' : Idp}
    (h : Once dead spent actions s) (hf : Fresh (actions ++ [a]))
    (hkeep : ∀ t, dead s.inner t → a.draws ≠ some t → dead s'.inner t)
    (hspends : spent s' = spent s ∨ ∃ t, (spent s').Perm (t :: spent s) ∧ ¬ dead s.inner t ∧
      t ∈ actions.filterMap Action.draws ∧ dead s'.inner t) :
    Once dead spent (actions ++ [a]) s' := by
  have hdrawn : ∀ t ∈ spent s, t ∈ (actions ++ [a]).filterMap Action.draws := by
    intro t ht
    rw [draws_concat]
    exact List.mem_append_left _ (h.drawn t ht)
  have hdead : ∀ t ∈ spent s, dead s'.inner t :=
    fun t ht => hkeep t (h.dead t ht) (hf.ne_draws (h.drawn t ht))
  rcases hspends with hsame | ⟨t, hperm, hlive, ht, hdead'⟩
  · exact ⟨hsame ▸ h.nodup, hsame ▸ hdrawn, hsame ▸ hdead⟩
  · refine ⟨hperm.nodup_iff.2 (List.nodup_cons.2 ⟨fun hmem => hlive (h.dead t hmem), h.nodup⟩), ?_, ?_⟩
    · intro u hu
      rcases List.mem_cons.1 (hperm.mem_iff.1 hu) with rfl | hu
      · rw [draws_concat]
        exact List.mem_append_left _ ht
      · exact hdrawn u hu
    · intro u hu
      rcases List.mem_cons.1 (hperm.mem_iff.1 hu) with rfl | hu
      · exact hdead'
      · exact hdead u hu

end

theorem once_new {dead : Inner → String → Prop} {spent : Idp → List String} {runtime : RuntimeConfig}
    (h : spent (.new runtime) = []) : Once dead spent [] (.new runtime) := by
  constructor <;> simp [h]

/-- Every refresh token was drawn. -/
theorem token_drawn (env : Env) (runtime : RuntimeConfig) (actions : List Action) {token : String}
    {record : RefreshTokenRecord}
    (h : (run (Idp.step env) (.new runtime) actions).inner.refreshTokens token = some record) :
    token ∈ actions.filterMap Action.draws := by
  induction actions using List.reverseRecOn generalizing record with
  | nil => cases h
  | append_singleton actions a ih =>
    rw [run_concat] at h
    rw [draws_concat]
    obtain hdrawn | ⟨old, hold, -⟩ := step_token h
    · exact List.mem_append_right _ (by simp [hdrawn])
    · exact List.mem_append_left _ (ih hold)

/-- The vector of RFC 7636, with SHA-256 where it is needed. -/
def rfc7636 : Env where
  config := ⟨[⟨"web", none, ["https://app/cb"]⟩], [⟨"alice", "alice@example.com", "Alice"⟩], none, 60, ""⟩
  sha256 _ := [19, 211, 30, 150, 26, 26, 216, 236, 47, 22, 177, 12, 76, 152, 46, 8, 118, 168, 120, 173, 109,
    241, 68, 86, 110, 225, 137, 74, 203, 112, 249, 195]
  decodeBase64 _ := none
  isUrl _ := true
  signIdToken _ _ _ _ _ := .ok "id"

/-- Alice is given a code. -/
def Action.login : Action :=
  .authorize ⟨some "code", some "web", some "https://app/cb", none, none,
    some "E9Melhoa2OwvFrEMTJguCHaoeK1t8URWbuGJSstw-cM", some "S256", none, none, none, none⟩ "ac" 10

/-- The code is shown for tokens. -/
def Action.exchange : Action :=
  .call none ⟨some "authorization_code", some "ac", some "https://app/cb", some "web", none,
    some "dBjftJeZ4CVP-mB92K27uhbUJU1p1r_wW1gFWFOEjXk", none⟩

/-- Her refresh token is. -/
def Action.refresh : Action :=
  .call none ⟨some "refresh_token", none, none, some "web", none, none, some "rt"⟩

/-- The provider rotates, and nobody stops it. -/
structure Rotates (runtime : RuntimeConfig) (actions : List Action) : Prop where
  start : runtime.rotateRefreshTokens = true
  kept : ∀ patch, .setConfig patch ∈ actions → patch.rotateRefreshTokens ≠ some false

theorem Call.Advances.runtime_eq {env : Env} {call : Call} {s s' : Inner} {drawn : String} {now : ℤ}
    {p phase : Phase} (h : call.Advances env s drawn now p s' phase) : s'.runtime = s.runtime := by
  cases h <;> rfl

theorem rotates_step {env : Env} {s : Idp} {a : Action} (h : s.inner.runtime.rotateRefreshTokens = true)
    (ha : ∀ patch, a = .setConfig patch → patch.rotateRefreshTokens ≠ some false) :
    (s.step env a).inner.runtime.rotateRefreshTokens = true := by
  cases a with
  | authorize params drawn now =>
    unfold Idp.step authorize
    dsimp only
    split <;> exact h
  | advance i drawn now =>
    unfold Idp.step
    dsimp only
    cases hi : s.calls[i]? with
    | none => exact h
    | some call =>
      dsimp only
      rw [(advance_advances env s.inner call drawn now).runtime_eq]
      exact h
  | setConfig patch =>
    have hpatch := ha patch rfl
    simp only [Idp.step, Inner.patchRuntimeConfig]
    cases hr : patch.rotateRefreshTokens with
    | none => exact h
    | some rotate =>
      cases rotate with
      | true => rfl
      | false => exact absurd hr hpatch
  | call | revoke | expire | revokeRefresh | failNext => exact h

theorem Rotates.of_concat {runtime : RuntimeConfig} {actions : List Action} {a : Action}
    (h : Rotates runtime (actions ++ [a])) : Rotates runtime actions :=
  ⟨h.start, fun patch hpatch => h.kept patch (List.mem_append_left _ hpatch)⟩

theorem rotates_run (env : Env) {runtime : RuntimeConfig} {actions : List Action} (h : Rotates runtime actions) :
    (run (Idp.step env) (.new runtime) actions).inner.runtime.rotateRefreshTokens = true := by
  induction actions using List.reverseRecOn with
  | nil => exact h.start
  | append_singleton actions a ih =>
    rw [run_concat]
    exact rotates_step (ih h.of_concat) fun patch ha => h.kept patch (by simp [ha])

theorem once_tokens (env : Env) (runtime : RuntimeConfig) (actions : List Action)
    (h : Fresh actions ∧ Rotates runtime actions) :
    Once Inner.Gone Idp.spentTokens actions (run (Idp.step env) (.new runtime) actions) := by
  refine run_invariant (P := fun actions => Fresh actions ∧ Rotates runtime actions) ?_ (once_new rfl) ?_ actions h
  · exact fun actions a h => ⟨h.1.of_concat, h.2.of_concat⟩
  rintro actions a ⟨hf, hr⟩ h
  have hrotates := rotates_run env hr.of_concat
  refine h.step hf (fun t => gone_step) ?_
  obtain hsame | ⟨token, record, hperm, hrecord, hrevoked, hgone⟩ := step_spends_token env _ a
  · exact Or.inl hsame
  · have hdrawn := token_drawn env runtime actions hrecord
    refine Or.inr ⟨token, hperm, fun hdead => ?_, hdrawn, hgone hrotates (hf.ne_draws hdrawn)⟩
    rw [hdead record hrecord] at hrevoked
    cases hrevoked

/-- **A refresh token that rotates is accepted once**, and nothing brings it back. -/
theorem rotated_token_dies (env : Env) (runtime : RuntimeConfig) (actions : List Action) (hf : Fresh actions)
    (hr : Rotates runtime actions) :
    (run (Idp.step env) (.new runtime) actions).spentTokens.Nodup ∧
    ∀ token ∈ (run (Idp.step env) (.new runtime) actions).spentTokens,
      (run (Idp.step env) (.new runtime) actions).inner.Gone token :=
  have h := once_tokens env runtime actions ⟨hf, hr⟩
  ⟨h.nodup, h.dead⟩

/-- Two calls with the refresh token, as above. -/
theorem rotated_token_dies_once :
    let actions : List Action := [.login, .exchange, .advance 0 "-" 11, .advance 0 "+" 11, .advance 0 "at" 11,
      .advance 0 "rt" 11, .refresh, .refresh, .advance 1 "=" 12, .advance 2 "/" 12, .advance 2 "rt2" 12,
      .advance 1 "rt3" 12]
    let s := run (Idp.step rfc7636) (.new { rotateRefreshTokens := true }) actions
    s.spentTokens = ["rt"] ∧ s.inner.Gone "rt" := by
  intro actions s
  have hspent : s.spentTokens = ["rt"] := by decide +kernel
  obtain ⟨-, hgone⟩ := rotated_token_dies rfc7636 { rotateRefreshTokens := true } actions (by decide)
    ⟨rfl, by simp [actions, Action.login, Action.exchange, Action.refresh]⟩
  exact ⟨hspent, hgone "rt" (by rw [hspent]; simp)⟩

/-- What takes a refresh token back: itself, or its subject. -/
def Revokes (token : String) (record : RefreshTokenRecord) (a : Action) : Prop :=
  a = .revoke token ∨ a = .revokeRefresh record.subject

end SessionBroker.MockIdp
