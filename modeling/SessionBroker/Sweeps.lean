/-
  A session map swept more often than another.

  * `sweep_sessions` is `sweep`, session by session;
  * `SessionMap.Lags`: the swept map has reaped earlier, and collected sessions
    that have expired; kept by every call on both and by a sweep of one;
  * `sweeping_invisible`: extra sweeps let in nobody and keep out nobody, as
    long as no mint gives a number that a generation still held bears.
-/
import SessionBroker.Revoked
import SessionBroker.Lags

namespace SessionBroker

open Bounded Relation Runs

/-! ## A sweep, session by session -/

namespace SessionMap

/-- Every memory is within its bound. -/
def Remembering (m : SessionMap) : Prop :=
  ∀ sid e, m.sessions sid = some e → e.retired.length ≤ m.policy.retiredMemory

/-- What a visit makes of the sessions, and what it finds collectible. -/
structure Visited (now : Timestamp) (order : List Sid) (s s' : SweepState) : Prop where
  policy : s'.map.policy = s.map.policy
  sessions : ∀ sid, s'.map.sessions sid = (s.map.sessions sid).map fun e =>
    if sid ∈ order ∧ e.collectible now s.map.policy = false then
      (e.reapGenerations now s.map.policy).1 else e
  removable : ∀ sid, sid ∈ s'.removable ↔ sid ∈ s.removable ∨ sid ∈ order ∧
    ∃ e, s.map.sessions sid = some e ∧ e.collectible now s.map.policy = true

theorem visited_one (now : Timestamp) (s : SweepState) (sid : Sid) :
    Visited now [sid] s (sweepVisit now s sid) := by
  unfold sweepVisit
  cases he : s.map.sessions sid with
  | none =>
    refine ⟨rfl, fun sid' => ?_, fun sid' => ?_⟩
    · by_cases hs : sid' = sid
      · subst hs
        simp [he]
      · simp [hs]
    · constructor
      · exact Or.inl
      · rintro (h | ⟨h, e, hx, -⟩)
        · exact h
        · rw [List.mem_singleton.1 h, he] at hx
          cases hx
  | some e =>
    by_cases hc : e.collectible now s.map.policy = true
    · simp only [hc, if_true]
      refine ⟨rfl, fun sid' => ?_, fun sid' => ?_⟩
      · by_cases hs : sid' = sid
        · subst hs
          simp [he, hc]
        · simp [hs]
      · simp only [List.mem_append, List.mem_singleton]
        refine or_congr Iff.rfl ⟨fun hs => ⟨hs, e, hs ▸ he, hc⟩, And.left⟩
    · simp only [hc]
      refine ⟨by simp, fun sid' => ?_, fun sid' => ?_⟩
      · by_cases hs : sid' = sid
        · subst hs
          simp [he, hc]
        · simp [hs]
      · simp only [List.mem_singleton]
        constructor
        · exact Or.inl
        · rintro (h | ⟨rfl, e', hx, hcol⟩)
          · exact h
          · rw [he] at hx
            cases hx
            exact absurd hcol hc

theorem Visited.trans {now : Timestamp} {order order' : List Sid} {s s' s'' : SweepState}
    (hm : s.map.Remembering) (h : Visited now order s s') (h' : Visited now order' s' s'') :
    Visited now (order ++ order') s s'' := by
  refine ⟨h'.policy.trans h.policy, fun sid => ?_, fun sid => ?_⟩
  · rw [h'.sessions, h.sessions, h.policy, Option.map_map]
    cases he : s.map.sessions sid with
    | none => rfl
    | some e =>
      have htwice := e.reap_reap (hm sid e he) now
      by_cases hc : e.collectible now s.map.policy = true <;> by_cases ho : sid ∈ order <;>
        by_cases ho' : sid ∈ order' <;> simp [hc, ho, ho', htwice]
  · rw [h'.removable, h.removable, h.sessions, h.policy]
    cases he : s.map.sessions sid with
    | none => simp
    | some e =>
      have hcol : ∀ P : Prop, [Decidable P] → (if P then
          (e.reapGenerations now s.map.policy).1 else e).collectible now s.map.policy =
          e.collectible now s.map.policy := by
        intro P _
        split_ifs <;> simp
      simp only [Option.map_some, Option.some.injEq, exists_eq_left', hcol, List.mem_append]
      tauto

theorem visited_all (now : Timestamp) (order : List Sid) {s : SweepState}
    (hm : s.map.Remembering) : Visited now order s (order.foldl (sweepVisit now) s) := by
  induction order using List.reverseRecOn with
  | nil => exact ⟨rfl, fun sid => by simp, fun sid => by simp⟩
  | append_singleton order sid ih =>
    rw [List.foldl_append]
    exact ih.trans hm (visited_one now _ sid)

theorem removed_sessions (sids : List Sid) (r : SessionMap × ℕ) (sid : Sid) :
    (sids.foldl sweepRemove r).1.sessions sid =
      if sid ∈ sids then none else r.1.sessions sid := by
  induction sids generalizing r with
  | nil => simp
  | cons sid' sids ih =>
    have hone : (sweepRemove r sid').1.sessions sid =
        if sid = sid' then none else r.1.sessions sid := by
      unfold sweepRemove
      cases he : r.1.sessions sid' with
      | none =>
        split_ifs with hs
        · rw [hs, he]
        · rfl
      | some e =>
        simp only [foldl_indexRemove, removeEntry_sessions, Function.update_apply]
    rw [List.foldl_cons, ih, hone]
    by_cases hs : sid ∈ sids <;> by_cases hs' : sid = sid' <;> simp [hs, hs']

/-- **`sweep`**, session by session. -/
theorem sweep_sessions {m : SessionMap} (hm : m.Remembering) (order : List Sid) (now : Timestamp)
    (sid : Sid) : (m.sweep order now).1.sessions sid =
      (m.sessions sid).bind fun e => if sid ∈ order then e.swept now m.policy else some e := by
  have hv := visited_all (s := ⟨m, 0, []⟩) now order hm
  simp only [sweep, removed_sessions, hv.removable, hv.sessions, SessionEntry.swept]
  cases he : m.sessions sid with
  | none => simp
  | some e =>
    by_cases hc : e.collectible now m.policy = true <;> by_cases ho : sid ∈ order <;>
      simp [hc, ho]

end SessionMap

/-! ## Maps swept more often -/

/-- The verdicts a sweep may turn into `unknown`. -/
def Resolution.spent : Resolution → Bool
  | .retired .. | .hardExpired .. => true
  | _ => false

/-- A session in a map and in one swept more often: in neither, expired and
    collected by the extra sweeps, or reaped earlier by them. -/
inductive Trails (policy : SessionPolicy) (now : Timestamp) :
    Option SessionEntry → Option SessionEntry → Prop
  | gone : Trails policy now none none
  | collected {e} : e.sessionExpiry now policy ≠ none → Trails policy now (some e) none
  | held {e e'} : e.OneCurrent → e.Lags policy now e' → Trails policy now (some e) (some e')

section
variable {policy : SessionPolicy} {now t : Timestamp} {o o' : Option SessionEntry}

theorem Trails.mono (h : Trails policy now o o') (ht : now ≤ t) : Trails policy t o o' := by
  cases h with
  | gone => exact .gone
  | collected hx => exact .collected (SessionEntry.sessionExpiry_mono ht hx)
  | held hone hl => exact .held hone (hl.mono ht)

/-- The same done to both. -/
theorem Trails.bind {f : SessionEntry → Option SessionEntry} (h : Trails policy now o o')
    (hx : ∀ e, o = some e → e.sessionExpiry now policy ≠ none → Trails policy now (f e) none)
    (hl : ∀ e e', o = some e → o' = some e' → e.OneCurrent → e.Lags policy now e' →
      Trails policy now (f e) (f e')) : Trails policy now (o.bind f) (o'.bind f) := by
  cases h with
  | gone => exact .gone
  | collected hexp => exact hx _ rfl hexp
  | held hone hlag => exact hl _ _ rfl rfl hone hlag

end

namespace SessionMap

/-- `m'` is `m` swept more often. -/
structure Lags (now : Timestamp) (m m' : SessionMap) : Prop where
  policy : m'.policy = m.policy
  sessions : ∀ sid, Trails m.policy now (m.sessions sid) (m'.sessions sid)

/-- The custody of a session is not called alive again. -/
def DeadStays (m : SessionMap) : Op → Prop
  | .setCustodyStatus order custody status => ∀ sid ∈ order, ∀ e ∈ m.sessions sid,
    e.custody = custody → e.custodyStatus = .dead → status = .dead
  | _ => True

/-- No refresh mints a number that a generation still held bears. -/
def NumberFree (m : SessionMap) : Op → Prop
  | .refresh hash _ now => ∀ sid ∈ m.index hash, ∀ e ∈ m.sessions sid,
    e.NumberFree hash now m.policy
  | _ => True

section
variable {m m' : SessionMap} {now t : Timestamp} {hash : TokenHash}

theorem Lags.mono (h : m.Lags now m') (ht : now ≤ t) : m.Lags t m' :=
  ⟨h.policy, fun sid => (h.sessions sid).mono ht⟩

/-- A session still held by the swept map is held by both. -/
theorem Lags.of_some (h : m.Lags now m') {sid : Sid} {e' : SessionEntry}
    (he' : m'.sessions sid = some e') :
    ∃ e, m.sessions sid = some e ∧ e.OneCurrent ∧ e.Lags m.policy now e' := by
  have hs := h.sessions sid
  rw [he'] at hs
  cases he : m.sessions sid with
  | none =>
    rw [he] at hs
    cases hs
  | some e =>
    rw [he] at hs
    cases hs with
    | held hone hl => exact ⟨e, rfl, hone, hl⟩

/-- **The verdicts agree**, or the swept map has forgotten what had lapsed. -/
theorem Lags.resolve (h : m.Lags now m') (hw : m.Wf) (hw' : m'.Wf) (ht : now ≤ t)
    (hash : TokenHash) : m'.resolve hash t = m.resolve hash t ∨
      m'.resolve hash t = .unknown ∧ (m.resolve hash t).spent = true := by
  by_cases hr' : m'.resolve hash t = .unknown
  · by_cases hr : m.resolve hash t = .unknown
    · exact Or.inl (hr'.trans hr.symm)
    · right
      refine ⟨hr', ?_⟩
      obtain ⟨sid, e, he, hmem, hres⟩ := hw.index.resolved hr
      rw [hres] at hr ⊢
      have hs := h.sessions sid
      rw [he] at hs
      cases hx : e.sessionExpiry t m.policy with
      | some reason =>
        simp only [SessionEntry.classify, hx]
        rfl
      | none =>
        cases he' : m'.sessions sid with
        | none =>
          rw [he'] at hs
          cases hs with
          | collected hexp => exact absurd hx (SessionEntry.sessionExpiry_mono ht hexp)
        | some e' =>
          rw [he'] at hs
          cases hs with
          | held hone hl =>
            have hgone : e'.classify hash t m.policy = .unknown := by
              by_cases hmem' : hash ∈ e'.allHashes
              · rw [hw'.index.resolve he' hmem', h.policy] at hr'
                exact hr'
              · exact SessionEntry.classify_of_not_held ((hl.sessionExpiry t).trans hx) hmem'
            rcases hl.classify (hw.sound sid e he) ht hash with hc | ⟨-, genNo, hc⟩
            · exact absurd (hc.symm.trans hgone) hr
            · rw [hc]
              rfl
  · left
    obtain ⟨sid, e', he', hmem', hres'⟩ := hw'.index.resolved hr'
    obtain ⟨e, he, -, hl⟩ := h.of_some he'
    rw [h.policy] at hres'
    rw [hw.index.resolve he (hl.hashes hmem'), hres']
    rcases hl.classify (hw.sound sid e he) ht hash with hc | ⟨hc, -⟩
    · exact hc
    · exact absurd (hres'.trans hc) hr'

theorem refresh_commit {token : SessionToken} {sid : Sid} {e e₁ : SessionEntry}
    {cookies : IssuedCookies} {effects : IndexEffects} (hi : m.index hash = some sid)
    (he : m.sessions sid = some e)
    (hr : e.refresh hash token t m.policy = .ok (e₁, cookies, effects)) :
    m.refresh hash token t = (m.commit sid e₁ effects, .ok cookies) := by
  simp only [SessionMap.refresh, hi, he, hr]
  rfl

theorem step_commit {token : SessionToken} {sid : Sid} {e e₁ : SessionEntry}
    {cookies : IssuedCookies} {effects : IndexEffects} (hi : m.index hash = some sid)
    (he : m.sessions sid = some e)
    (hr : e.refresh hash token t m.policy = .ok (e₁, cookies, effects)) :
    m.step (.refresh hash token t) = m.commit sid e₁ effects := by
  simp only [step, call, refresh_commit hi he hr]

/-- **A refresh is refused by both, or granted by both** with the same cookies. -/
theorem Lags.refresh (h : m.Lags now m') (hw : m.Wf) (hw' : m'.Wf) (ht : now ≤ t)
    (hash : TokenHash) (token : SessionToken) :
    (∃ reason reason', m.refresh hash token t = (m, .error reason) ∧
      m'.refresh hash token t = (m', .error reason')) ∨
    ∃ sid e e₁ e₁' cookies effects effects', m.index hash = some sid ∧ m.sessions sid = some e ∧
      e.OneCurrent ∧ e.refresh hash token t m.policy = .ok (e₁, cookies, effects) ∧
      m.refresh hash token t = (m.commit sid e₁ effects, .ok cookies) ∧
      m'.refresh hash token t = (m'.commit sid e₁' effects', .ok cookies) ∧
      (e.NumberFree hash t m.policy → e₁.Lags m.policy t e₁') := by
  have hres := h.resolve hw hw' ht hash
  by_cases hu : (m.resolve hash t).refreshable = true
  · right
    have hsame : m'.resolve hash t = m.resolve hash t := by
      refine hres.resolve_right ?_
      rintro ⟨-, hspent⟩
      cases hv : m.resolve hash t <;> rw [hv] at hu hspent <;>
        simp [Resolution.refreshable, Resolution.spent] at hu hspent
    have hne : m'.resolve hash t ≠ .unknown := by
      rw [hsame]
      intro hx
      rw [hx] at hu
      cases hu
    obtain ⟨sid, e', he', hmem', -⟩ := hw'.index.resolved hne
    obtain ⟨e, he, hone, hl⟩ := h.of_some he'
    have hmem := hl.hashes hmem'
    rw [hw.index.resolve he hmem] at hu
    obtain ⟨⟨e₁, cookies, effects⟩, hr⟩ := SessionEntry.refresh_ok token hu
    have hs' := hw'.sound sid e' he'
    rw [h.policy] at hs'
    obtain ⟨e₁', effects', hr', hl₁⟩ := hl.refresh (hw.sound sid e he) hs' ht hr
    have hi := (hw.index.mem he).2 hmem
    refine ⟨sid, e, e₁, e₁', cookies, effects, effects', hi, he, hone, hr, ?_, ?_, hl₁⟩
    · exact refresh_commit hi he hr
    · rw [← h.policy] at hr'
      exact refresh_commit ((hw'.index.mem he').2 hmem') he' hr'
  · left
    have hu : (m.resolve hash t).refreshable = false := Bool.not_eq_true _ ▸ hu
    have hu' : (m'.resolve hash t).refreshable = false := by
      rcases hres with hc | ⟨hc, -⟩
      · rw [hc, hu]
      · rw [hc]
        rfl
    obtain ⟨reason, hd⟩ := refresh_denied hu token
    obtain ⟨reason', hd'⟩ := refresh_denied hu' token
    exact ⟨reason, reason', hd, hd'⟩

/-! ## Steps -/

/-- A refresh by both. -/
theorem Lags.step_refresh {token : SessionToken} (h : m.Lags t m') (hw : m.Wf) (hw' : m'.Wf)
    (hf : ¬ m.Knows token.hash) (hn : m.NumberFree (.refresh hash token t)) :
    (m.refresh hash token t).1.Lags t (m'.refresh hash token t).1 := by
  rcases h.refresh hw hw' le_rfl hash token with ⟨_, _, hr, hr'⟩ |
    ⟨sid, e, e₁, e₁', cookies, effects, effects', hi, he, hone, href, hr, hr', hl⟩
  · rw [hr, hr']
    exact h
  · have hnum : e.NumberFree hash t m.policy := hn sid hi e he
    have hnew : token.hash ∉ e.allHashes := fun hx => by
      rw [← hw.index.mem he] at hx
      exact hf (Or.inl (by rw [hx]; exact Option.some_ne_none sid))
    rw [hr, hr']
    refine ⟨by simpa using h.policy, fun s => ?_⟩
    simp only [commit_sessions, commit_policy, Function.update_apply]
    split_ifs with hs
    · exact .held (hone.refresh (hw.sound sid e he) hnew hnum href) (hl hnum)
    · exact h.sessions s

/-- What is done to the sessions one by one, and to those of both maps alike. -/
theorem Lags.pointwise {n n' : SessionMap} (h : m.Lags t m') (f : Sid → SessionEntry → Option SessionEntry)
    (hp : n.policy = m.policy) (hp' : n'.policy = m'.policy)
    (hn : ∀ sid, n.sessions sid = (m.sessions sid).bind (f sid))
    (hn' : ∀ sid, n'.sessions sid = (m'.sessions sid).bind (f sid))
    (hx : ∀ sid e, m.sessions sid = some e → e.sessionExpiry t m.policy ≠ none →
      Trails m.policy t (f sid e) none)
    (hl : ∀ sid e e', m.sessions sid = some e → m'.sessions sid = some e' → e.OneCurrent →
      e.Lags m.policy t e' → Trails m.policy t (f sid e) (f sid e')) : n.Lags t n' := by
  refine ⟨by rw [hp', hp, h.policy], fun sid => ?_⟩
  rw [hp, hn, hn']
  exact (h.sessions sid).bind (hx sid) (hl sid)

theorem Remembering.of_wf (h : m.Wf) : m.Remembering := fun sid e he => (h.sound sid e he).memory

theorem sweep_policy (m : SessionMap) (order : List Sid) (now : Timestamp) :
    (m.sweep order now).1.policy = m.policy :=
  moves_invariant (·.policy = m.policy) (fun _ _ h hm => hm.policy.trans h)
    (sweep_moves order) rfl

/-- A sweep of both. -/
theorem Lags.step_sweep (h : m.Lags t m') (hw : m.Wf) (hw' : m'.Wf) (order : List Sid) :
    (m.sweep order t).1.Lags t (m'.sweep order t).1 := by
  have hsame : ∀ sid, (m'.sweep order t).1.sessions sid = (m'.sessions sid).bind fun e =>
      if sid ∈ order then e.swept t m.policy else some e := by
    intro sid
    rw [sweep_sessions (.of_wf hw'), h.policy]
  refine h.pointwise (fun sid e => if sid ∈ order then e.swept t m.policy else some e)
    (sweep_policy ..) (sweep_policy ..) (sweep_sessions (.of_wf hw) order t) hsame ?_ ?_
  · intro sid e he hx
    split_ifs
    · unfold SessionEntry.swept
      split_ifs
      · exact .gone
      · refine .collected ?_
        simpa [SessionEntry.sessionExpiry] using hx
    · exact .collected hx
  · intro sid e e' he he' hone hl
    have hs := hw.sound sid e he
    split_ifs
    · unfold SessionEntry.swept
      rw [hl.collectible]
      split_ifs
      · exact .gone
      · rw [hl.reap_eq hs.memory]
        exact .held (hone.reap hs t) (.refl (SessionEntry.reap_retired_le hs.memory) t)
    · exact .held hone hl

/-- **A sweep of the swept map alone.** -/
theorem Lags.sweep (h : m.Lags t m') {policy : SessionPolicy} (hk : m'.Kept policy)
    (ht : m'.Tracked t) (order : List Sid) : m.Lags t (m'.sweep order t).1 := by
  refine ⟨(sweep_policy ..).trans h.policy, fun sid => ?_⟩
  rw [sweep_sessions (.of_wf hk.wf)]
  cases he' : m'.sessions sid with
  | none =>
    rw [Option.bind_none, ← he']
    exact h.sessions sid
  | some e' =>
    obtain ⟨e, he, hone, hl⟩ := h.of_some he'
    rw [he, Option.bind_some]
    have hs' := hk.wf.sound sid e' he'
    have hcap := hk.capped sid e' he'
    have hc := (ht.chronicle sid).sublist (ht.recorded sid e' he').sublist
    rw [h.policy] at hs' hcap hc ⊢
    split_ifs
    · unfold SessionEntry.swept
      split_ifs with hcol
      · refine .collected ?_
        rw [← hl.sessionExpiry]
        exact SessionEntry.expired_of_collectible hcol
      · exact .held hone (hl.reaped hs' hc (hone.lags hl) hcap)
    · exact .held hone hl

/-- Some sessions of both killed. -/
theorem Lags.kills {n n' : SessionMap} (h : m.Lags t m') (P : Sid → CustodyId → Prop)
    [∀ sid custody, Decidable (P sid custody)] (u : Timestamp)
    (hp : n.policy = m.policy) (hp' : n'.policy = m'.policy)
    (hn : ∀ sid, n.sessions sid = (m.sessions sid).map fun e =>
      if P sid e.custody ∧ e.status = .alive then e.killed u else e)
    (hn' : ∀ sid, n'.sessions sid = (m'.sessions sid).map fun e =>
      if P sid e.custody ∧ e.status = .alive then e.killed u else e) : n.Lags t n' := by
  refine h.pointwise (fun sid e => some (if P sid e.custody ∧ e.status = .alive then e.killed u
    else e)) hp hp' (fun sid => ?_) (fun sid => ?_) ?_ ?_
  · rw [hn, Option.map_eq_bind]
    rfl
  · rw [hn', Option.map_eq_bind]
    rfl
  · intro sid e he hx
    split_ifs
    · refine .collected ?_
      simp [SessionEntry.sessionExpiry, SessionEntry.killed]
    · exact .collected hx
  · intro sid e e' he he' hone hl
    obtain ⟨hcustody, hstatus⟩ := hl.frame
    rw [hcustody, hstatus]
    split_ifs
    · exact .held (hone.congr rfl rfl) (hl.killed u)
    · exact .held hone hl

/-- A custody status set on both. -/
theorem Lags.touches (h : m.Lags t m') {order : List Sid} {custody : CustodyId}
    {status : CustodyStatus} (hd : m.DeadStays (.setCustodyStatus order custody status)) :
    (m.setCustodyStatus order custody status).1.Lags t
      (m'.setCustodyStatus order custody status).1 := by
  refine h.pointwise (fun sid e => some (if sid ∈ order ∧ e.custody = custody then
    { e with custodyStatus := status } else e)) (setCustodyStatus_index ..).2
    (setCustodyStatus_index ..).2 (fun sid => ?_) (fun sid => ?_) ?_ ?_
  · rw [setCustodyStatus_sessions, Option.map_eq_bind]
    rfl
  · rw [setCustodyStatus_sessions, Option.map_eq_bind]
    rfl
  · intro sid e he hx
    split_ifs with hc
    · refine .collected fun hnone => hx ?_
      -- only a death called off could have ended the expiry
      obtain ⟨h₁, h₂, h₃, h₄⟩ := SessionEntry.sessionExpiry_eq_none.1 hnone
      refine SessionEntry.sessionExpiry_eq_none.2 ⟨h₁, h₂, h₃, ?_⟩
      rintro ⟨hdead, hkill⟩
      exact h₄ ⟨hd sid hc.1 e he hc.2 hdead, hkill⟩
    · exact .collected hx
  · intro sid e e' he he' hone hl
    have hiff : (sid ∈ order ∧ e'.custody = custody) ↔ (sid ∈ order ∧ e.custody = custody) := by
      rw [hl.frame.1]
    by_cases hc : sid ∈ order ∧ e.custody = custody
    · rw [if_pos hc, if_pos (hiff.2 hc)]
      exact .held (hone.congr rfl rfl) (hl.touch status)
    · rw [if_neg hc, if_neg fun hx => hc (hiff.1 hx)]
      exact .held hone hl

/-- **A call on both.** -/
theorem Lags.step {op : Op} (h : m.Lags t m') (hw : m.Wf) (hw' : m'.Wf) (hf : op.FreshIn m)
    (hop : ∀ u, op.now = some u → u = t) (hd : m.DeadStays op) (hn : m.NumberFree op) :
    (m.step op).Lags t (m'.step op) := by
  cases op with
  | create sid custody sub token u =>
    refine ⟨h.policy, fun s => ?_⟩
    simp only [SessionMap.step, call, create_sessions, create_policy, Function.update_apply]
    split_ifs with hs
    · rw [h.policy]
      refine .held (.of_concat (List.nil_append _).symm fun _ hx => (List.not_mem_nil hx).elim) (.refl ?_ t)
      exact Nat.zero_le _
    · exact h.sessions s
  | refresh hash token u =>
    obtain rfl := hop u rfl
    have hstep : ∀ m : SessionMap, m.step (.refresh hash token u) = (m.refresh hash token u).1 := by
      intro m
      simp only [SessionMap.step, call]
      rcases m.refresh hash token u with ⟨m', _ | _⟩ <;> rfl
    rw [hstep, hstep]
    exact h.step_refresh hw hw' (hf.1 _ rfl) hn
  | tombstone sid reason u =>
    exact h.kills (fun sid' _ => sid' = sid) u (tombstone_index ..).2 (tombstone_index ..).2
      (tombstone_sessions m sid u reason) (tombstone_sessions m' sid u reason)
  | tombstoneByCustody order custody u =>
    refine h.kills (fun sid custody' => sid ∈ order ∧ custody' = custody) u
      (tombstoneByCustody_index ..).2 (tombstoneByCustody_index ..).2 (fun sid => ?_) fun sid => ?_
    · simp only [and_assoc]
      exact tombstoneByCustody_sessions m order custody u sid
    · simp only [and_assoc]
      exact tombstoneByCustody_sessions m' order custody u sid
  | setCustodyStatus order custody status => exact h.touches hd
  | sweep order u =>
    obtain rfl := hop u rfl
    exact h.step_sweep hw hw' order

end

end SessionMap

/-! ## Runs -/

/-- `ops'` is `ops` with extra sweeps. -/
inductive MoreSweeps : List Op → List Op → Prop
  | nil : MoreSweeps [] []
  | call {ops ops'} (op) : MoreSweeps ops ops' → MoreSweeps (ops ++ [op]) (ops' ++ [op])
  | sweep {ops ops'} (order now) : MoreSweeps ops ops' →
    MoreSweeps ops (ops' ++ [.sweep order now])

theorem MoreSweeps.sublist {ops ops' : List Op} (h : MoreSweeps ops ops') : ops.Sublist ops' := by
  induction h with
  | nil => exact .slnil
  | call op _ ih => exact ih.append_right _
  | sweep order now _ ih => exact ih.trans (List.sublist_append_left ..)

theorem MoreSweeps.refl (ops : List Op) : MoreSweeps ops ops := by
  induction ops using List.reverseRecOn with
  | nil => exact .nil
  | append_singleton ops op ih => exact .call op ih

namespace SessionMap

/-- A run that sets no custody status calls none alive again. -/
theorem along_deadStays {ops : List Op} (h : ∀ op ∈ ops, ∀ order custody status,
    op ≠ .setCustodyStatus order custody status) (m : SessionMap) : Along step DeadStays m ops := by
  induction ops generalizing m with
  | nil => trivial
  | cons op ops ih =>
    refine ⟨?_, ih (fun op' hop => h op' (List.mem_cons_of_mem _ hop)) _⟩
    cases op with
    | setCustodyStatus order custody status => exact absurd rfl (h _ List.mem_cons_self _ _ _)
    | _ => trivial

/-- The extra sweeps leave the swept map ahead. -/
theorem lags_run (policy : SessionPolicy) {ops ops' : List Op} (h : MoreSweeps ops ops')
    (hf : Fresh ops') (hn : Nondecreasing Op.now ops')
    (hd : Along step DeadStays (withDurability policy) ops)
    (hnum : Along step NumberFree (withDurability policy) ops)
    {t : Timestamp} (ht : NotBefore Op.now ops' t) :
    (runs policy ops).Lags t (runs policy ops') := by
  have hfresh : ∀ {ops ops' : List Op}, MoreSweeps ops ops' → Fresh ops' → Fresh ops :=
    fun h hf => ⟨hf.1.sublist (h.sublist.filterMap _), hf.2.sublist (h.sublist.filterMap _)⟩
  induction h generalizing t with
  | nil => exact ⟨rfl, fun _ => .gone⟩
  | @call ops ops' op hmore ih =>
    obtain ⟨hd₁, hd₂⟩ := along_append.1 hd
    obtain ⟨hn₁, hn₂⟩ := along_append.1 hnum
    have hk := kept_run policy (hfresh hmore hf.of_append)
    have hk' := kept_run policy hf.of_append
    have hfop : op.FreshIn (runs policy ops) :=
      ((hfresh (.call op hmore) hf).from policy).freshIn
    have hstep : ∀ {u : Timestamp}, (∀ v, op.now = some v → v = u) →
        (runs policy ops).Lags u (runs policy ops') →
        (runs policy (ops ++ [op])).Lags u (runs policy (ops' ++ [op])) := by
      intro u hop hl
      rw [runs, runs, run_concat, run_concat]
      exact hl.step hk.wf hk'.wf hfop hop hd₂.1 hn₂.1
    cases hu : op.now with
    | none => exact hstep (by simp [hu]) (ih hf.of_append hn.of_append hd₁ hn₁ ht.of_concat)
    | some u =>
      refine (hstep (u := u) (by simp [hu]) ?_).mono (ht.last hu)
      exact ih hf.of_append hn.of_append hd₁ hn₁ (hn.notBefore hu)
  | @sweep ops ops' order u hmore ih =>
    have hu : Op.now (.sweep order u) = some u := rfl
    have hl := ih hf.of_append hn.of_append hd hnum (hn.notBefore hu)
    have htr := tracked_run policy hf.of_append hn.of_append (hn.notBefore hu)
    have hswept : runs policy (ops' ++ [.sweep order u]) = ((runs policy ops').sweep order u).1 := by
      rw [runs, run_concat]
      rfl
    rw [hswept]
    exact (hl.sweep (kept_run policy hf.of_append) htr order).mono (ht.last hu)

/-- Below `2^32` live generations the numbers cannot meet. -/
theorem numberFree_of_noWrap {m : SessionMap} {policy : SessionPolicy} {now : Timestamp}
    (hk : m.Kept policy) (ht : m.Tracked now)
    (hw : ∀ sid, NoWrap policy ((m.history sid).length + 1)) (op : Op) : m.NumberFree op := by
  cases op with
  | refresh hash token u =>
    intro sid hi e he _ g hg
    have hw := hw sid
    rw [← hk.policy] at hw
    obtain ⟨k, hwin⟩ := ht.window sid e he (hw.of_le (Nat.le_succ _))
    have hcap := hk.capped sid e he
    have hcur : e.currentGen = (m.history sid).length % 2 ^ 32 := by
      rw [length_history]
      exact (hk.counted.numbered sid e he).currentGen
    rw [hwin.gens] at hg hcap
    obtain ⟨j, hj, rfl⟩ := List.getElem_of_mem hg
    have hget : (m.history sid)[k + j]? = some (((m.history sid).drop k)[j]) := by
      rw [← List.getElem?_drop, List.getElem?_eq_getElem hj]
    rw [ht.consecutive sid _ _ hget, hcur]
    rw [List.length_drop] at hj hcap
    rcases hw with hw | hw <;> omega
  | _ => trivial

/-- Nor can they in any run with a cap below `2^32`. -/
theorem along_numberFree {policy : SessionPolicy} (hcap : policy.cap < 2 ^ 32) {ops : List Op}
    (hf : Fresh ops) (hn : Nondecreasing Op.now ops) :
    Along step NumberFree (withDurability policy) ops := by
  induction ops using List.reverseRecOn with
  | nil => trivial
  | append_singleton ops op ih =>
    have : Nonempty Timestamp := ⟨⟨0⟩⟩
    obtain ⟨t, ht⟩ := exists_notBefore Op.now ops
    refine along_append.2 ⟨ih hf.of_append hn.of_append, ?_, trivial⟩
    exact numberFree_of_noWrap (kept_run policy hf.of_append)
      (tracked_run policy hf.of_append hn.of_append ht) (fun _ => Or.inr hcap) op

/-- At `t`, `m'` lets in whom `m` lets in. -/
structure AdmitsLike (t : Timestamp) (m m' : SessionMap) : Prop where
  active : ∀ hash sid genNo newest, m'.resolve hash t = .active sid genNo newest ↔
    m.resolve hash t = .active sid genNo newest
  refresh : ∀ hash token cookies, (m'.refresh hash token t).2 = .ok cookies ↔
    (m.refresh hash token t).2 = .ok cookies
  verdict : ∀ hash, m'.resolve hash t = m.resolve hash t ∨
    m'.resolve hash t = .unknown ∧ (m.resolve hash t).spent = true

/-- **Sweeping is invisible**, in every two runs that differ in extra sweeps
    only: no verdict changes but from retired or expired to unknown, and every
    refresh has the same outcome. -/
theorem sweeping_invisible (policy : SessionPolicy) {ops ops' : List Op} (h : MoreSweeps ops ops')
    (hf : Fresh ops') (hn : Nondecreasing Op.now ops')
    (hd : Along step DeadStays (withDurability policy) ops)
    (hnum : Along step NumberFree (withDurability policy) ops)
    {t : Timestamp} (ht : NotBefore Op.now ops' t) :
    (runs policy ops).AdmitsLike t (runs policy ops') := by
  have hl := lags_run policy h hf hn hd hnum ht
  have hw := (kept_run policy ⟨hf.1.sublist (h.sublist.filterMap _),
    hf.2.sublist (h.sublist.filterMap _)⟩).wf
  have hw' := (kept_run policy hf).wf
  have hres := hl.resolve hw hw' le_rfl
  refine ⟨fun hash sid genNo newest => ?_, fun hash token cookies => ?_, hres⟩
  · rcases hres hash with hr | ⟨hr, hs⟩
    · rw [hr]
    · constructor
      · intro ha
        rw [hr] at ha
        cases ha
      · intro ha
        rw [ha] at hs
        cases hs
  · rcases hl.refresh hw hw' le_rfl hash token with ⟨_, _, hr, hr'⟩ |
      ⟨_, _, _, _, _, _, _, -, -, -, -, hr, hr', -⟩
    · rw [hr, hr']
      constructor <;> exact fun h => by cases h
    · rw [hr, hr']

/-- At a concrete run: an extra sweep forgets a cookie past its grace. -/
theorem sweeping_invisible_forgotten :
    let policy : SessionPolicy := { retiredMemory := 0 }
    let ops := [Op.create ⟨"s"⟩ ⟨"c"⟩ "alice" .sample1 ⟨0⟩,
      .refresh SessionToken.sample1.hash .sample2 ⟨40⟩]
    let ops' := ops ++ [.sweep [⟨"s"⟩] ⟨200⟩]
    (runs policy ops).resolve SessionToken.sample1.hash ⟨200⟩ = .retired ⟨"s"⟩ 1 ∧
      (runs policy ops').resolve SessionToken.sample1.hash ⟨200⟩ = .unknown ∧
      (runs policy ops).AdmitsLike ⟨200⟩ (runs policy ops') :=
  ⟨by decide, by decide, sweeping_invisible _ (.sweep _ _ (.call _ (.call _ .nil))) (by decide)
    (by decide) (by exact ⟨trivial, trivial, trivial⟩) (along_numberFree (by decide) (by decide) (by decide))
    (by decide)⟩

/-! ## A number that comes round -/

/-- A cap that no number runs into, and a memory that keeps nothing. -/
def roomy : SessionPolicy where
  genTtlSecs := 10
  graceSecs := 5
  coalesceSecs := 0
  maxLiveGens := 2 ^ 33
  retiredMemory := 0

/-- The `i`-th of a list of cookie values. -/
def draw (i : ℕ) : SessionToken := ⟨toString i, ⟨BitVec.ofNat 256 i⟩⟩

/-- A login and `n` rotations, all at one time. -/
def burst (n : ℕ) : List Op :=
  .create ⟨"s"⟩ ⟨"c"⟩ "alice" (draw 1) ⟨0⟩ ::
    (List.range n).map fun i => .refresh (draw (i + 1)).hash (draw (i + 2)) ⟨0⟩

/-- The `i`-th generation, before and after the next one is minted. -/
def newest (i : ℕ) : Generation :=
  ⟨(i + 1) % 2 ^ 32, (draw (i + 1)).hash, ⟨0⟩, ⟨10⟩, none⟩

def replaced (i : ℕ) : Generation :=
  ⟨(i + 1) % 2 ^ 32, (draw (i + 1)).hash, ⟨0⟩, ⟨10⟩, some ⟨0⟩⟩

theorem replaced_zero : replaced 0 = ⟨1, (draw 1).hash, ⟨0⟩, ⟨10⟩, some ⟨0⟩⟩ := by
  simp only [replaced, Nat.zero_add, Nat.reducePow, Nat.reduceMod]

/-- The session's entry after them. -/
def burstEntry (n : ℕ) : SessionEntry :=
  { newEntry roomy ⟨"s"⟩ ⟨"c"⟩ "alice" (draw 1) ⟨0⟩ with
    gens := (List.range n).map replaced ++ [newest n]
    currentGen := (n + 1) % 2 ^ 32
    currentToken := some (draw (n + 1)) }

theorem draw_hash_inj {i j : ℕ} (hi : i < 2 ^ 256) (hj : j < 2 ^ 256)
    (h : (draw i).hash = (draw j).hash) : i = j := by
  have hbits : BitVec.ofNat 256 i = BitVec.ofNat 256 j := congrArg TokenHash.bits h
  have := congrArg BitVec.toNat hbits
  rwa [BitVec.toNat_ofNat, BitVec.toNat_ofNat, Nat.mod_eq_of_lt hi, Nat.mod_eq_of_lt hj] at this

theorem draws_burst (n : ℕ) :
    (burst n).filterMap Op.draws = (List.range (n + 1)).map fun i => (draw (i + 1)).hash := by
  rw [List.range_succ_eq_map, burst, List.filterMap_cons]
  simp [Op.draws, List.filterMap_map, Function.comp_def]

theorem fresh_burst {n : ℕ} (hn : n < 2 ^ 255) : Fresh (burst n) := by
  constructor
  · rw [draws_burst]
    refine List.Nodup.map_on ?_ List.nodup_range
    intro i hi j hj h
    rw [List.mem_range] at hi hj
    have := draw_hash_inj (by omega) (by omega) h
    omega
  · simp [burst, Op.logsIn, List.filterMap_map, Function.comp_def]

theorem burst_succ (n : ℕ) :
    burst (n + 1) = burst n ++ [.refresh (draw (n + 1)).hash (draw (n + 2)) ⟨0⟩] := by
  simp [burst, List.range_succ]

theorem newest_mem (n : ℕ) : newest n ∈ (burstEntry n).gens :=
  List.mem_append_right _ (List.mem_singleton_self _)

theorem burstEntry_retired (n : ℕ) :
    (burstEntry n).retired.length ≤ roomy.retiredMemory := Nat.zero_le _

/-- Nothing lapses while the clock stands still. -/
theorem burstEntry_valid {n : ℕ} {g : Generation} (hg : g ∈ (burstEntry n).gens) :
    (⟨0⟩ : Timestamp) < g.resourceValidUntil roomy.graceSecs := by
  simp only [burstEntry, List.mem_append, List.mem_map, List.mem_singleton] at hg
  rcases hg with ⟨i, -, rfl⟩ | rfl
  · exact (by decide : (⟨0⟩ : Timestamp) < min ⟨10⟩ ((⟨0⟩ : Timestamp).plusSecs 5))
  · exact (by decide : (⟨0⟩ : Timestamp) < ⟨10⟩)

theorem roomy_active : (⟨0⟩ : Timestamp).plusSecs roomy.genTtlSecs = ⟨10⟩ := by decide

theorem burst_zero : newEntry roomy ⟨"s"⟩ ⟨"c"⟩ "alice" (draw 1) ⟨0⟩ = burstEntry 0 := by
  simp only [burstEntry, newest, newEntry, roomy_active, List.range_zero, List.map_nil,
    List.nil_append, Nat.zero_add, Nat.reducePow, Nat.reduceMod]

theorem burst_pushed (n : ℕ) :
    ((burstEntry n).pushed (draw (n + 2)) ⟨0⟩ roomy).slide ⟨0⟩ roomy = burstEntry (n + 1) := by
  have hno : ((n + 1) % 2 ^ 32 + 1) % 2 ^ 32 = (n + 1 + 1) % 2 ^ 32 := by omega
  simp only [SessionEntry.pushed, SessionEntry.minted, SessionEntry.slide, burstEntry,
    supersedeLast_append, List.range_succ, List.map_append, List.map_cons, List.map_nil, hno,
    newEntry, newest, replaced, Nat.add_assoc, roomy_active, Nat.reduceAdd]

/-- **One rotation more.** -/
theorem burst_refresh {n : ℕ} (hn : n ≤ 2 ^ 32) (effects : IndexEffects) (cookies : IssuedCookies)
    (e : SessionEntry) (hr : (burstEntry n).refresh (draw (n + 1)).hash (draw (n + 2)) ⟨0⟩ roomy =
      .ok (e, cookies, effects)) : e = burstEntry (n + 1) := by
  obtain ⟨-, ⟨_, -, hw, -⟩ | ⟨-, rfl, -⟩⟩ := SessionEntry.refresh_cases hr
  · exact absurd hw (Nat.not_lt_zero _)
  · have hmint : ((burstEntry n).mint (draw (n + 2)) ⟨0⟩ roomy).1 =
        (burstEntry n).pushed (draw (n + 2)) ⟨0⟩ roomy := by
      refine SessionEntry.reap_settled (burstEntry_retired n) (fun g hg => ?_) ?_
      · -- the slid entry has the same generations
        have hvalid := burstEntry_valid (n := n + 1) (g := g) (burst_pushed n ▸ hg)
        simp [SessionEntry.lapsed, hvalid]
      · simp [burstEntry, roomy, SessionPolicy.cap]
        omega
    rw [hmint, burst_pushed]

theorem burst_sessions {n : ℕ} (hn : n ≤ 2 ^ 32) : (runs roomy (burst n)).sessions =
    Function.update (fun _ => none) ⟨"s"⟩ (some (burstEntry n)) := by
  induction n with
  | zero =>
    rw [← burst_zero]
    rfl
  | succ n ih =>
    have ih := ih (by omega)
    have hw := (kept_run roomy (fresh_burst (n := n) (by omega))).wf
    have hp := (kept_run roomy (fresh_burst (n := n) (by omega))).policy
    set m := runs roomy (burst n) with hm
    have he : m.sessions ⟨"s"⟩ = some (burstEntry n) := by rw [ih, Function.update_self]
    have hs := hw.sound _ _ he
    rw [hp] at hs
    have hi : m.index (draw (n + 1)).hash = some ⟨"s"⟩ :=
      (hw.index.mem he).2 (List.mem_append_left _ (List.mem_map_of_mem (newest_mem n)))
    have hu : ((burstEntry n).classify (newest n).tokenHash ⟨0⟩ roomy).refreshable = true := by
      rw [SessionEntry.classify_of_mem hs.gens_nodup rfl (newest_mem n),
        if_pos (burstEntry_valid (newest_mem n))]
      rfl
    obtain ⟨⟨e, cookies, effects⟩, hr⟩ := SessionEntry.refresh_ok (draw (n + 2)) hu
    have hstep : m.step (.refresh (draw (n + 1)).hash (draw (n + 2)) ⟨0⟩) =
        m.commit ⟨"s"⟩ e effects := by
      rw [← hp] at hr
      exact step_commit hi he hr
    rw [burst_succ, runs, run_concat, ← runs, ← hm, hstep, commit_sessions, ih,
      Function.update_idem, burst_refresh (by omega) effects cookies e hr]

/-- A last rotation, at `6`, alone or after a sweep. -/
def late (n : ℕ) : List Op :=
  burst n ++ [.refresh (draw (n + 1)).hash (draw (n + 2)) ⟨6⟩]

def lateSwept (n : ℕ) : List Op :=
  burst n ++ [.sweep [⟨"s"⟩] ⟨6⟩] ++ [.refresh (draw (n + 1)).hash (draw (n + 2)) ⟨6⟩]

theorem fresh_lateSwept {n : ℕ} (hn : n < 2 ^ 254) : Fresh (lateSwept n) ∧ Fresh (late n) := by
  have h := fresh_burst (n := n + 1) (by omega)
  rw [burst_succ] at h
  unfold Fresh at h ⊢
  simp only [late, lateSwept, List.filterMap_append, List.filterMap_cons, List.filterMap_nil,
    Op.draws, Op.logsIn, List.append_nil] at h ⊢
  exact ⟨h, h⟩

section
variable {n : ℕ}

theorem burst_expiry : (burstEntry n).sessionExpiry ⟨6⟩ roomy = none := by
  have h : (newEntry roomy ⟨"s"⟩ ⟨"c"⟩ "alice" (draw 1) ⟨0⟩).sessionExpiry ⟨6⟩ roomy = none := by
    decide
  exact h

theorem burst_rotates (hs : (burstEntry n).Sound roomy) :
    (burstEntry n).Rotates (newest n).tokenHash ⟨6⟩ roomy := by
  have hvalid : (⟨6⟩ : Timestamp) < (newest n).resourceValidUntil roomy.graceSecs :=
    (by decide : (⟨6⟩ : Timestamp) < ⟨10⟩)
  refine ⟨?_, Or.inr (Nat.zero_le _)⟩
  rw [SessionEntry.classify_of_mem hs.gens_nodup burst_expiry (newest_mem n), if_pos hvalid]
  rfl

/-- A mint that gives number 1 again keeps the first generation. -/
theorem replaced_kept (hn : n + 1 = 2 ^ 32) : replaced 0 ∈
    (((burstEntry n).mint (draw (n + 2)) ⟨6⟩ roomy).1.slide ⟨6⟩ roomy).gens := by
  have hgens : (((burstEntry n).mint (draw (n + 2)) ⟨6⟩ roomy).1.slide ⟨6⟩ roomy).gens =
      keepLast roomy.cap (((burstEntry n).pushed (draw (n + 2)) ⟨6⟩ roomy).kept ⟨6⟩ roomy) :=
    SessionEntry.reap_gens (e := (burstEntry n).pushed (draw (n + 2)) ⟨6⟩ roomy)
      (burstEntry_retired n)
  have hlen : (((burstEntry n).pushed (draw (n + 2)) ⟨6⟩ roomy).kept ⟨6⟩ roomy).length ≤
      roomy.cap := by
    refine (List.length_filter_le _ _).trans ?_
    simp [SessionEntry.pushed, burstEntry, roomy, SessionPolicy.cap]
    omega
  rw [hgens, keepLast_of_length_le hlen, SessionEntry.kept, List.mem_filter]
  constructor
  · refine List.mem_append_left _ ?_
    simp only [burstEntry, supersedeLast_append]
    exact List.mem_append_left _ (List.mem_map.2 ⟨0, List.mem_range.2 (by omega), rfl⟩)
  · have hcur : ((burstEntry n).pushed (draw (n + 2)) ⟨6⟩ roomy).currentGen = 1 := by
      show ((n + 1) % 2 ^ 32 + 1) % 2 ^ 32 = 1
      omega
    simp [SessionEntry.lapsed, hcur, replaced]

theorem minted_expiry : (((burstEntry n).mint (draw (n + 2)) ⟨6⟩ roomy).1.slide ⟨6⟩
    roomy).sessionExpiry ⟨6⟩ roomy = none := by
  refine SessionEntry.sessionExpiry_eq_none.2 ⟨?_, ?_, ?_, ?_⟩ <;>
    simp only [SessionEntry.slide, SessionEntry.mint_eq, SessionEntry.pushed,
      SessionEntry.reap_status, SessionEntry.reap_absoluteExp, SessionEntry.reap_custodyStatus,
      burstEntry, newEntry]
  · exact (by decide : (⟨6⟩ : Timestamp) < (⟨0⟩ : Timestamp).plusSecs roomy.absoluteTtlSecs)
  · exact (by decide : (⟨6⟩ : Timestamp) < min ((⟨6⟩ : Timestamp).plusSecs roomy.idleTtlSecs)
      ((⟨0⟩ : Timestamp).plusSecs roomy.absoluteTtlSecs))
  · rintro ⟨h, -⟩
    cases h

/-- Left alone, the number comes round to the first generation. -/
theorem late_resolve (hn : n + 1 = 2 ^ 32) :
    (runs roomy (late n)).resolve (draw 1).hash ⟨6⟩ = .staleRefreshable ⟨"s"⟩ 1 := by
  have hk' := kept_run roomy (fresh_lateSwept (n := n) (by omega)).2
  have hk := kept_run roomy (fresh_burst (n := n) (by omega))
  have hsess := burst_sessions (n := n) (by omega)
  unfold late at hk' ⊢
  rw [runs, run_concat, ← runs] at hk' ⊢
  set m := runs roomy (burst n)
  have he : m.sessions ⟨"s"⟩ = some (burstEntry n) := by rw [hsess, Function.update_self]
  have hs := hk.wf.sound _ _ he
  rw [hk.policy] at hs
  have hi : m.index (newest n).tokenHash = some ⟨"s"⟩ :=
    (hk.wf.index.mem he).2 (List.mem_append_left _ (List.mem_map_of_mem (newest_mem n)))
  have hr := SessionEntry.refresh_eq_mint (draw (n + 2)) (burst_rotates hs)
  rw [← hk.policy] at hr
  have hstep : m.step (.refresh (draw (n + 1)).hash (draw (n + 2)) ⟨6⟩) = m.commit _ _ _ :=
    step_commit hi he hr
  rw [hstep] at hk' ⊢
  have he' := congrFun (commit_sessions m ⟨"s"⟩
    (((burstEntry n).mint (draw (n + 2)) ⟨6⟩ m.policy).1.slide ⟨6⟩ m.policy)
    ((burstEntry n).mint (draw (n + 2)) ⟨6⟩ m.policy).2) ⟨"s"⟩
  rw [Function.update_self] at he'
  have hs' := hk'.wf.sound _ _ he'
  have hmem := replaced_kept hn
  have hx := minted_expiry (n := n)
  rw [← hk.policy] at hmem hx
  have hsid := (hk'.wf.own _ _ he').trans rfl
  have hcur : (((burstEntry n).mint (draw (n + 2)) ⟨6⟩ m.policy).1.slide ⟨6⟩ m.policy).currentGen =
      1 := by
    simp only [SessionEntry.slide, SessionEntry.mint_eq, SessionEntry.reap_currentGen]
    show ((n + 1) % 2 ^ 32 + 1) % 2 ^ 32 = 1
    omega
  have hres := hk'.wf.index.resolve he' (List.mem_append_left _ (List.mem_map_of_mem hmem)) ⟨6⟩
  rw [commit_policy, SessionEntry.classify_of_mem (commit_policy m _ _ _ ▸ hs').gens_nodup hx hmem,
    hsid, hcur, hk.policy, replaced_zero, if_neg, if_pos rfl] at hres
  · rw [hk.policy]
    exact hres
  · exact (by decide : ¬ (⟨6⟩ : Timestamp) < min ⟨10⟩ ((⟨0⟩ : Timestamp).plusSecs 5))

/-- What no session holds means nothing. -/
theorem Wf.resolve_unheld {m : SessionMap} (h : m.Wf) {hash : TokenHash}
    (hno : ∀ sid e, m.sessions sid = some e → hash ∉ e.allHashes) (t : Timestamp) :
    m.resolve hash t = .unknown := by
  by_contra hr
  obtain ⟨sid, e, he, hmem, -⟩ := h.index.resolved hr
  exact hno sid e he hmem

/-- A sweep past the grace retires the first generation, and this memory
    keeps nothing. -/
theorem replaced_reaped (hn : n + 1 = 2 ^ 32) :
    (draw 1).hash ∉ ((burstEntry n).reapGenerations ⟨6⟩ roomy).1.allHashes := by
  intro hmem
  rcases List.mem_append.1 hmem with hmem | hmem
  · obtain ⟨g, hg, hgh⟩ := List.mem_map.1 hmem
    rw [SessionEntry.reap_gens (burstEntry_retired n)] at hg
    have hkept := List.mem_filter.1 ((keepLast_sublist _ _).subset hg)
    rcases List.mem_append.1 hkept.1 with hg | hg
    · obtain ⟨i, hi, rfl⟩ := List.mem_map.1 hg
      rw [List.mem_range] at hi
      obtain rfl : i = 0 := by
        have := draw_hash_inj (i := i + 1) (j := 1) (by omega) (by omega) hgh
        omega
      have hcur : (burstEntry n).currentGen = 0 := by
        show (n + 1) % 2 ^ 32 = 0
        omega
      have hlapsed : (burstEntry n).lapsed ⟨6⟩ roomy (replaced 0) = true := by
        rw [SessionEntry.lapsed, hcur, replaced_zero]
        decide
      rw [hlapsed] at hkept
      cases hkept.2
    · rw [List.mem_singleton.1 hg] at hgh
      have := draw_hash_inj (i := n + 1) (by omega) (by omega) hgh
      omega
  · have hlen : ((burstEntry n).reapGenerations ⟨6⟩ _).1.retired.length ≤ _ :=
      SessionEntry.reap_retired_le (burstEntry_retired n)
    rw [List.eq_nil_of_length_eq_zero (Nat.le_zero.1 hlen)] at hmem
    cases hmem

/-- Swept first, the first generation is forgotten. -/
theorem lateSwept_resolve (hn : n + 1 = 2 ^ 32) :
    (runs roomy (lateSwept n)).resolve (draw 1).hash ⟨6⟩ = .unknown := by
  have hf := (fresh_lateSwept (n := n) (by omega)).1
  have hk' := kept_run roomy hf
  unfold lateSwept at hf hk' ⊢
  have hks := kept_run roomy hf.of_append
  have hk := kept_run roomy hf.of_append.of_append
  have hsess := burst_sessions (n := n) (by omega)
  rw [runs, run_concat, ← runs] at hk' ⊢
  have hswept : ∀ sid e, (runs roomy (burst n ++ [.sweep [⟨"s"⟩] ⟨6⟩])).sessions sid = some e →
      (draw 1).hash ∉ e.allHashes := by
    intro sid e he
    rw [runs, run_concat, ← runs] at he
    change ((runs roomy (burst n)).sweep [⟨"s"⟩] ⟨6⟩).1.sessions sid = some e at he
    rw [sweep_sessions (.of_wf hk.wf), hk.policy, hsess] at he
    by_cases hs : sid = ⟨"s"⟩
    · subst hs
      have hcol : (burstEntry n).collectible ⟨6⟩ roomy = false := by
        simp [SessionEntry.collectible, burst_expiry]
      rw [Function.update_self, Option.bind_some, if_pos (List.mem_singleton_self _),
        SessionEntry.swept, hcol] at he
      cases he
      exact replaced_reaped hn
    · rw [Function.update_of_ne hs] at he
      cases he
  refine hk'.wf.resolve_unheld (fun sid e he => ?_) ⟨6⟩
  rcases step_refresh (runs roomy (burst n ++ [.sweep [⟨"s"⟩] ⟨6⟩])) (draw (n + 1)).hash
    (draw (n + 2)) ⟨6⟩ with hstep | ⟨sid', e₀, e₁, cookies, effects, hi, he₀, hr, hstep⟩
  · rw [hstep] at he
    exact hswept sid e he
  · rw [hstep, commit_sessions, Function.update_apply] at he
    split_ifs at he
    · cases he
      intro hmem
      have hperm := SessionEntry.refresh_hashes (hks.wf.sound _ _ he₀).memory hr
      rcases List.mem_append.1 (hperm.subset (List.mem_append_left _ hmem)) with hadd | hold
      · obtain ⟨g, hg, hgh⟩ := List.mem_map.1 hadd
        rw [SessionEntry.refresh_added hr g (Option.mem_toList.1 hg)] at hgh
        have := draw_hash_inj (i := n + 2) (by omega) (by omega) hgh
        omega
      · exact hswept sid' e₀ he₀ hold
    · exact hswept sid e he

end

theorem times_lateSwept (n : ℕ) :
    Nondecreasing Op.now (lateSwept n) ∧ NotBefore Op.now (lateSwept n) ⟨6⟩ := by
  have htimes : (lateSwept n).filterMap Op.now = List.replicate (n + 1) ⟨0⟩ ++ [⟨6⟩, ⟨6⟩] := by
    simp [lateSwept, burst, Op.now, List.filterMap_map, Function.comp_def,
      List.replicate_succ]
  have hle : (⟨0⟩ : Timestamp) ≤ ⟨6⟩ := by decide
  constructor
  · unfold Nondecreasing
    rw [htimes, List.pairwise_append]
    refine ⟨List.pairwise_replicate.2 (Or.inr le_rfl), by simp, fun a ha b hb => ?_⟩
    rw [List.eq_of_mem_replicate ha]
    simp only [List.mem_cons, List.not_mem_nil, or_false, or_self] at hb
    rw [hb]
    exact hle
  · intro u hu
    rw [htimes, List.mem_append] at hu
    rcases hu with hu | hu
    · rw [List.eq_of_mem_replicate hu]
      exact hle
    · simp only [List.mem_cons, List.not_mem_nil, or_false, or_self] at hu
      exact hu.le

theorem unset_late (n : ℕ) : ∀ op ∈ late n, ∀ order custody status,
    op ≠ .setCustodyStatus order custody status := by
  rintro op hop order custody status rfl
  simp [late, burst] at hop

/-- A sweep that keeps out a cookie: the counter came round to the number of a
    generation that only the map without the sweep still holds. -/
theorem sweep_shows :
    let ops := late (2 ^ 32 - 1)
    let ops' := lateSwept (2 ^ 32 - 1)
    (MoreSweeps ops ops' ∧ Fresh ops' ∧ Nondecreasing Op.now ops' ∧
      Along step DeadStays (withDurability roomy) ops ∧ NotBefore Op.now ops' ⟨6⟩) ∧
    (runs roomy ops).resolve (draw 1).hash ⟨6⟩ = .staleRefreshable ⟨"s"⟩ 1 ∧
      (runs roomy ops').resolve (draw 1).hash ⟨6⟩ = .unknown ∧
      ∀ token, (∃ cookies, ((runs roomy ops).refresh (draw 1).hash token ⟨6⟩).2 = .ok cookies) ∧
        ¬ ∃ cookies, ((runs roomy ops').refresh (draw 1).hash token ⟨6⟩).2 = .ok cookies := by
  intro ops ops'
  have hn : 2 ^ 32 - 1 + 1 = 2 ^ 32 := by omega
  have hlate : (runs roomy ops).resolve (draw 1).hash ⟨6⟩ = .staleRefreshable ⟨"s"⟩ 1 :=
    late_resolve hn
  have hswept : (runs roomy ops').resolve (draw 1).hash ⟨6⟩ = .unknown := lateSwept_resolve hn
  refine ⟨⟨?_, ?_, ?_, ?_, ?_⟩, hlate, hswept, fun token => ⟨?_, ?_⟩⟩
  · exact .call _ (.sweep _ _ (.refl _))
  · exact (fresh_lateSwept (by omega)).1
  · exact (times_lateSwept _).1
  · exact along_deadStays (unset_late _) _
  · exact (times_lateSwept _).2
  · have hu : ((runs roomy ops).resolve (draw 1).hash ⟨6⟩).refreshable = true := by
      rw [hlate]
      rfl
    obtain ⟨m', cookies, h⟩ := (refresh_ok_iff token).2 hu
    exact ⟨cookies, by rw [h]⟩
  · have hu : ((runs roomy ops').resolve (draw 1).hash ⟨6⟩).refreshable = false := by
      rw [hswept]
      rfl
    obtain ⟨reason, h⟩ := refresh_denied hu token
    rw [h]
    rintro ⟨_, hx⟩
    cases hx

end SessionMap

end SessionBroker
