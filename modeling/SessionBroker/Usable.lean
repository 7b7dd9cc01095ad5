/-
  The cookie a refresh hands out.

  * `Overslept`: the refresh coalesces onto a current generation that is past
    its own TTL;
  * `refresh_usable_iff`: of a policy the configuration accepts, every refresh
    that succeeds hands out a cookie that authenticates, unless the entry has
    overslept;
  * `never_overslept`: it never has while coalescing takes no longer than the
    TTL of a generation.
-/
import SessionBroker.Lags

namespace SessionBroker

open Runs

/-- The check of `BrokerConfig::from_sources` on the session policy. -/
def SessionPolicy.accepted (policy : SessionPolicy) : Bool :=
  policy.idleTtlSecs ≤ policy.absoluteTtlSecs

/-- An accepted policy, its TTLs a second at least and its durations below `2^62`. -/
structure SessionPolicy.Configured (policy : SessionPolicy) : Prop where
  accepted : policy.accepted = true
  gen : 1 ≤ policy.genTtlSecs
  idle : 1 ≤ policy.idleTtlSecs
  small : max policy.genTtlSecs (max policy.graceSecs (max policy.coalesceSecs
    (max policy.idleTtlSecs policy.absoluteTtlSecs))) < 2 ^ 62

instance (policy : SessionPolicy) : Decidable policy.Configured :=
  decidable_of_iff (policy.accepted = true ∧ 1 ≤ policy.genTtlSecs ∧ 1 ≤ policy.idleTtlSecs ∧
      max policy.genTtlSecs (max policy.graceSecs (max policy.coalesceSecs
        (max policy.idleTtlSecs policy.absoluteTtlSecs))) < 2 ^ 62)
    ⟨fun h => ⟨h.1, h.2.1, h.2.2.1, h.2.2.2⟩, fun h => ⟨h.1, h.2, h.3, h.4⟩⟩

/-- A duration of a second or more leads past an instant that is not the last. -/
theorem Timestamp.lt_plusSecs {t u : Timestamp} {secs : ℕ} (hu : t < u)
    (hlast : u.secs ≤ 2 ^ 63 - 1) (h₁ : 1 ≤ secs) (h₂ : secs < 2 ^ 62) : t < t.plusSecs secs := by
  rw [lt_iff] at hu ⊢
  simp only [plusSecs, asI64_of_lt (show secs < 2 ^ 63 by omega)]
  omega

theorem Timestamp.plusSecs_le (t : Timestamp) (secs : ℕ) : (t.plusSecs secs).secs ≤ 2 ^ 63 - 1 := by
  simp only [plusSecs]
  omega

namespace SessionEntry

/-- A refresh would hand out the current generation again, past its TTL. -/
def Overslept (e : SessionEntry) (now : Timestamp) (policy : SessionPolicy) : Prop :=
  e.currentToken ≠ none ∧ now.since e.current.createdAt < policy.coalesceSecs ∧
    e.current.activeUntil ≤ now

instance (e : SessionEntry) (now : Timestamp) (policy : SessionPolicy) :
    Decidable (e.Overslept now policy) := inferInstanceAs (Decidable (_ ∧ _))

section
variable {e e' : SessionEntry} {policy : SessionPolicy} {now : Timestamp} {hash : TokenHash}
  {token : SessionToken} {cookies : IssuedCookies} {effects : IndexEffects}

/-- A session that a refresh found open is open after it has slid. -/
theorem slide_open (hp : policy.Configured) (hlast : e.absoluteExp.secs ≤ 2 ^ 63 - 1)
    (hx : e.sessionExpiry now policy = none) : (e.slide now policy).sessionExpiry now policy = none := by
  obtain ⟨hs, ha, -, hc⟩ := sessionExpiry_eq_none.1 hx
  have hsmall := hp.small
  refine sessionExpiry_eq_none.2 ⟨hs, ha, lt_min ?_ ha, hc⟩
  exact Timestamp.lt_plusSecs ha hlast hp.idle (by omega)

/-- The current generation authenticates until its TTL. -/
theorem current_authenticates (hs : e.Sound policy) (hx : e.sessionExpiry now policy = none) :
    (e.classify e.current.tokenHash now policy).authenticates = true ↔
      now < e.current.activeUntil := by
  obtain ⟨gs, g, hg⟩ := hs.ends
  have hvalid : e.current.resourceValidUntil policy.graceSecs = e.current.activeUntil := by
    rw [hg.current_eq, Generation.resourceValidUntil, hg.current]
  rw [classify_of_mem hs.gens_nodup hx hs.current_mem, hvalid, if_pos hs.current_genNo]
  split_ifs with h
  · simp [Resolution.authenticates, h]
  · simp [Resolution.authenticates, h]

/-- **A refresh of the entry** hands out a cookie that authenticates, unless it
    has overslept. -/
theorem refresh_authenticates (hp : policy.Configured) (hs : e.Sound policy)
    (hlast : e.absoluteExp.secs ≤ 2 ^ 63 - 1) (hnew : token.hash ∉ e.allHashes)
    (hr : e.refresh hash token now policy = .ok (e', cookies, effects)) :
    cookies.token.hash ∈ e'.allHashes ∧
      ((e'.classify cookies.token.hash now policy).authenticates = true ↔
        ¬e.Overslept now policy) := by
  have hs' := hs.refresh hnew hr
  obtain ⟨husable, hcases⟩ := refresh_cases hr
  have hx := (mem_of_refreshable husable).1
  have held : ∀ {h : TokenHash}, e'.current.tokenHash = h → h ∈ e'.allHashes := by
    intro h heq
    rw [← heq]
    exact List.mem_append_left _ (List.mem_map_of_mem hs'.current_mem)
  rcases hcases with ⟨current, htok, hwithin, rfl, -, rfl⟩ | ⟨hrot, rfl, -, rfl⟩
  · -- coalesced: the current generation is handed out as it stands
    obtain ⟨gs, g, hg⟩ := hs.ends
    have hcur : (e.slide now policy).current.tokenHash = current.hash := by
      rw [hg.token current htok, ← hg.current_eq]
      rfl
    refine ⟨held hcur, ?_⟩
    dsimp only
    rw [← hcur, current_authenticates hs' (slide_open hp hlast hx)]
    constructor
    · rintro hlt ⟨-, -, hle⟩
      exact absurd hlt (not_lt.2 hle)
    · intro hn
      by_contra hle
      exact hn ⟨by rw [htok]; exact Option.some_ne_none _, hwithin, not_lt.1 hle⟩
  · -- minted: the new generation starts now
    have hcur : ((e.mint token now policy).1.slide now policy).current = e.minted token now policy :=
      mint_current hs.memory
    have hframe : (e.mint token now policy).1.sessionExpiry now policy = none := by
      rw [← hx, mint_eq]
      simp [sessionExpiry, SessionEntry.pushed]
    have habs : (e.mint token now policy).1.absoluteExp = e.absoluteExp := by
      rw [mint_eq]
      simp [SessionEntry.pushed]
    have hlast' : (e.mint token now policy).1.absoluteExp.secs ≤ 2 ^ 63 - 1 := habs ▸ hlast
    have hhash : ((e.mint token now policy).1.slide now policy).current.tokenHash = token.hash := by
      rw [hcur, minted_tokenHash]
    refine ⟨held hhash, ?_⟩
    dsimp only
    rw [← hhash, current_authenticates hs' (slide_open hp hlast' hframe), hcur]
    have hsmall := hp.small
    have hopen := (sessionExpiry_eq_none.1 hx).2.1
    refine ⟨fun _ => ?_, fun _ => Timestamp.lt_plusSecs hopen hlast hp.gen (by omega)⟩
    rintro ⟨htok, hwithin, -⟩
    rcases hrot with hnone | hlate
    · exact htok hnone
    · omega

end

/-! ## When generations were made -/

/-- The generations were made at readings `R` and last for the TTL, within a
    session that ends while the clock can still tell. -/
structure Timed (R : Timestamp → Prop) (policy : SessionPolicy) (e : SessionEntry) : Prop where
  last : e.absoluteExp.secs ≤ 2 ^ 63 - 1
  gens : ∀ g ∈ e.gens, R g.createdAt ∧ g.activeUntil = g.createdAt.plusSecs policy.genTtlSecs

theorem forall_supersedeLast {P : Timestamp → Timestamp → Prop} (t : Timestamp)
    {gens : List Generation} (h : ∀ g ∈ gens, P g.createdAt g.activeUntil) :
    ∀ g ∈ supersedeLast t gens, P g.createdAt g.activeUntil := by
  induction gens using List.reverseRecOn with
  | nil =>
    intro g hg
    cases hg
  | append_singleton gens last _ =>
    rw [supersedeLast_append]
    intro g hg
    rcases List.mem_append.1 hg with hg | hg
    · exact h g (List.mem_append_left _ hg)
    · rw [List.mem_singleton.1 hg]
      exact h last (List.mem_append_right _ (List.mem_singleton_self last))

section
variable {R : Timestamp → Prop} {e e' : SessionEntry} {policy : SessionPolicy} {now : Timestamp}
  {hash : TokenHash} {token : SessionToken} {cookies : IssuedCookies} {effects : IndexEffects}

theorem Timed.reap (h : e.Timed R policy) (hs : e.Sound policy) (now : Timestamp) :
    (e.reapGenerations now policy).1.Timed R policy := by
  constructor
  · rw [reap_absoluteExp]
    exact h.last
  · intro g hg
    exact h.gens g ((reap_sublist hs.memory).subset hg)

theorem Timed.refresh (h : e.Timed R policy) (hs : e.Sound policy) (hnew : token.hash ∉ e.allHashes)
    (hnow : R now) (hr : e.refresh hash token now policy = .ok (e', cookies, effects)) :
    e'.Timed R policy := by
  rcases (refresh_cases hr).2 with ⟨-, -, -, rfl, -⟩ | ⟨-, rfl, -⟩
  · exact ⟨h.last, h.gens⟩
  · have hpushed : (e.pushed token now policy).Timed R policy := by
      refine ⟨h.last, fun g hg => ?_⟩
      rcases List.mem_append.1 hg with hg | hg
      · exact forall_supersedeLast (P := fun c a => R c ∧ a = c.plusSecs policy.genTtlSecs) now
          h.gens g hg
      · rw [List.mem_singleton.1 hg]
        exact ⟨hnow, rfl⟩
    have hreap := hpushed.reap (hs.pushed now hnew) now
    exact ⟨hreap.last, hreap.gens⟩

end

end SessionEntry

namespace SessionMap

variable {R : Timestamp → Prop} {policy : SessionPolicy} {m m' : SessionMap} {ops : List Op}
  {hash : TokenHash} {token : SessionToken} {now : Timestamp} {cookies : IssuedCookies}

/-- All sessions of the map. -/
def Timed (R : Timestamp → Prop) (m : SessionMap) : Prop :=
  ∀ sid e, m.sessions sid = some e → e.Timed R m.policy

theorem Timed.move {op : Op} (hw : m.Wf) (h : m.Timed R) (hop : ∀ t, op.now = some t → R t)
    (hm : Move op m m') : m'.Timed R := by
  unfold Timed at h ⊢
  rw [hm.policy]
  cases hm with
  | @create _ sid custody sub token t hh hs =>
    refine forall_update h ?_
    rintro _ ⟨⟩
    refine ⟨Timestamp.plusSecs_le _ _, fun g hg => ?_⟩
    rw [List.mem_singleton.1 hg]
    exact ⟨hop t rfl, rfl⟩
  | @refresh _ hash token t sid e e' cookies effects hh hi he hr =>
    rw [commit_sessions]
    refine forall_update h ?_
    rintro _ ⟨⟩
    refine (h sid e he).refresh (hw.sound sid e he) (fun hx => hh (Or.inl ?_)) (hop t rfl) hr
    rw [(hw.index.mem he).2 hx]
    exact Option.some_ne_none sid
  | @kill _ op sid e t reason hk he ha =>
    exact forall_update h (by rintro _ ⟨⟩; exact ⟨(h sid e he).last, (h sid e he).gens⟩)
  | @touch _ order custody status sid e he hc =>
    exact forall_update h (by rintro _ ⟨⟩; exact ⟨(h sid e he).last, (h sid e he).gens⟩)
  | announce => exact h
  | @reap _ order t sid e he =>
    rw [reap_sessions]
    refine forall_update h ?_
    rintro _ ⟨⟩
    exact (h sid e he).reap (hw.sound sid e he) t
  | remove =>
    rw [forget_sessions]
    exact forall_update h (fun _ h => by cases h)

theorem timed_run (policy : SessionPolicy) (hf : Fresh ops) (hR : ∀ t ∈ ops.filterMap Op.now, R t) :
    (runs policy ops).Timed R := by
  have hrun : (fun m => m.Wf ∧ m.Timed R) (run step (withDurability policy) ops) :=
    run_moves_invariant (fun ops => Fresh ops ∧ ∀ t ∈ ops.filterMap Op.now, R t)
      (fun m => m.Wf ∧ m.Timed R)
      (fun ops op h => ⟨h.1.of_append, fun t ht => h.2 t (by
        rw [List.filterMap_append]
        exact List.mem_append_left _ ht)⟩)
      (fun _ _ h => step_moves (h.1.from policy).freshIn)
      ⟨wf_withDurability policy, fun _ _ h => by cases h⟩
      (fun ops op m m' h hi hm => ⟨hi.1.move hm, hi.2.move hi.1 (fun t ht => h.2 t (by
        simp [ht])) hm⟩) ops ⟨hf, hR⟩
  exact hrun.2

/-- The session of the presented cookie has overslept. -/
def Overslept (m : SessionMap) (hash : TokenHash) (now : Timestamp) : Prop :=
  ∃ sid e, m.index hash = some sid ∧ m.sessions sid = some e ∧ e.Overslept now m.policy

/-- Coalescing for no longer than a TTL never hands out a stale cookie. -/
theorem never_overslept (policy : SessionPolicy) (hp : policy.Configured)
    (hle : policy.coalesceSecs ≤ policy.genTtlSecs) (ops : List Op) (hf : Fresh ops)
    (hpast : ∀ t ∈ ops.filterMap Op.now, 0 ≤ t.secs) (hash : TokenHash) (now : Timestamp)
    (hopen : ((runs policy ops).resolve hash now).refreshable = true) :
    ¬(runs policy ops).Overslept hash now := by
  rintro ⟨sid, e, hi, he, -, hwithin, hend⟩
  have hk := kept_run policy hf
  rw [hk.policy] at hwithin
  have hs := hk.wf.sound sid e he
  have ht := timed_run (R := fun t => 0 ≤ t.secs) policy hf hpast sid e he
  obtain ⟨hfrom, hactive⟩ := ht.gens _ hs.current_mem
  have hu : (e.classify hash now (runs policy ops).policy).refreshable = true := by
    simpa only [resolve, hi, he] using hopen
  have hlt := (SessionEntry.sessionExpiry_eq_none.1 (SessionEntry.mem_of_refreshable hu).1).2.1
  have hlast := ht.last
  have hsmall := hp.small
  rw [hactive, hk.policy, Timestamp.le_iff] at hend
  rw [Timestamp.lt_iff] at hlt
  simp only [Timestamp.plusSecs, asI64_of_lt (show policy.genTtlSecs < 2 ^ 63 by omega)] at hend
  have hd : Int.bmod (now.secs - e.current.createdAt.secs) (2 ^ 64) =
      now.secs - e.current.createdAt.secs := Int.bmod_eq_of_le (by omega) (by omega)
  simp only [Timestamp.since, hd] at hwithin
  split_ifs at hwithin with hneg <;> omega

/-- **A usable cookie.**  A refresh that succeeds hands out a cookie that
    authenticates at once, unless it coalesces onto a current generation past
    its TTL. -/
theorem refresh_usable_iff (policy : SessionPolicy) (hp : policy.Configured) (ops : List Op)
    (hash : TokenHash) (token : SessionToken) (now : Timestamp)
    (hf : Fresh (ops ++ [.refresh hash token now])) (m' : SessionMap) (cookies : IssuedCookies)
    (hr : (runs policy ops).refresh hash token now = (m', .ok cookies)) :
    (m'.resolve cookies.token.hash now).authenticates = true ↔
      ¬(runs policy ops).Overslept hash now := by
  have hk := kept_run policy hf.of_append
  have hk' := kept_run policy hf
  have ht := timed_run (R := fun _ => True) policy hf.of_append fun _ _ => trivial
  have hcall : (runs policy ops).call (.refresh hash token now) = (m', .issued cookies) := by
    simp only [call, hr]
  rcases call_refresh (runs policy ops) hash token now with
    ⟨reason, hc⟩ | ⟨sid, e, e', cookies', effects, hi, he, hre, hc⟩
  · rw [hc] at hcall
    cases hcall
  · rw [hcall] at hc
    obtain ⟨rfl, hcookies⟩ := Prod.mk.inj hc
    obtain rfl : cookies = cookies' := Reply.issued.inj hcookies
    have hrun : runs policy (ops ++ [.refresh hash token now]) =
        (runs policy ops).commit sid e' effects := by
      rw [runs, run_concat]
      exact congrArg Prod.fst hcall
    rw [hrun] at hk'
    have hnew : token.hash ∉ e.allHashes := by
      intro hx
      refine (hf.from policy).freshIn.1 token.hash rfl (Or.inl ?_)
      have hidx := (hk.wf.index.mem he).2 hx
      exact fun hnone => Option.some_ne_none sid (hidx.symm.trans hnone)
    have hpol := hk.policy
    have hsound := hk.wf.sound sid e he
    have hlast := (ht sid e he).last
    rw [hpol] at hre hsound
    obtain ⟨hheld, hiff⟩ := SessionEntry.refresh_authenticates hp hsound hlast hnew hre
    have he' : ((runs policy ops).commit sid e' effects).sessions sid = some e' := by
      rw [commit_sessions, Function.update_self]
    rw [hk'.wf.index.resolve he' hheld, hk'.policy, hiff, not_iff_not]
    constructor
    · intro ho
      exact ⟨sid, e, hi, he, by rwa [hpol]⟩
    · rintro ⟨sid', e₁, hi', he₁, ho⟩
      rw [hi] at hi'
      cases hi'
      rw [he] at he₁
      cases he₁
      rwa [hpol] at ho

/-- Tabs that coalesce for longer than a cookie lasts. -/
def longCoalesce : SessionPolicy := { genTtlSecs := 10, coalesceSecs := 30 }

/-- A login, and a refresh after the TTL: the cookie that has run out is handed
    out again. -/
theorem coalesced_cookie_is_stale :
    ¬∀ (policy : SessionPolicy), policy.Configured → ∀ (ops : List Op) (hash : TokenHash)
      (token : SessionToken) (now : Timestamp), Fresh (ops ++ [.refresh hash token now]) →
      Nondecreasing Op.now (ops ++ [.refresh hash token now]) → ∀ (m' : SessionMap)
      (cookies : IssuedCookies), (runs policy ops).refresh hash token now = (m', .ok cookies) →
      (m'.resolve cookies.token.hash now).authenticates = true := by
  intro h
  let ops := [Op.create ⟨"s"⟩ ⟨"c"⟩ "alice" .sample1 ⟨0⟩]
  have hgiven : ((runs longCoalesce ops).refresh SessionToken.sample1.hash .sample2 ⟨12⟩).2.toOption.map
      (·.token) = some .sample1 := by decide
  have hstale : ((((runs longCoalesce ops).refresh SessionToken.sample1.hash .sample2 ⟨12⟩).1.resolve
      SessionToken.sample1.hash ⟨12⟩)).authenticates = false := by decide
  have hall := h longCoalesce (by decide) ops SessionToken.sample1.hash .sample2 ⟨12⟩ (by decide)
    (by decide)
  rcases hr : (runs longCoalesce ops).refresh SessionToken.sample1.hash .sample2 ⟨12⟩ with
    ⟨m', reason | cookies⟩
  · rw [hr] at hgiven
    cases hgiven
  · rw [hr] at hgiven hstale
    have htoken : cookies.token = .sample1 := Option.some.inj hgiven
    have huse := hall m' cookies hr
    rw [htoken, hstale] at huse
    cases huse

/-- At a concrete run: a login and a rotation. -/
theorem refresh_usable_iff_rotated :
    ∃ m' cookies, (runs {} [.create ⟨"s"⟩ ⟨"c"⟩ "alice" .sample1 ⟨0⟩]).refresh
        SessionToken.sample1.hash .sample2 ⟨40⟩ = (m', .ok cookies) ∧
      (m'.resolve cookies.token.hash ⟨40⟩).authenticates = true := by
  have hopen : ((runs {} [.create ⟨"s"⟩ ⟨"c"⟩ "alice" .sample1 ⟨0⟩]).resolve
      SessionToken.sample1.hash ⟨40⟩).refreshable = true := by decide
  obtain ⟨m', cookies, hr⟩ := (refresh_ok_iff .sample2).2 hopen
  refine ⟨m', cookies, hr, (refresh_usable_iff {} (by decide) _ _ _ _ (by decide) m' cookies hr).2 ?_⟩
  exact never_overslept {} (by decide) (by decide) _ (by decide) (by decide) _ _ hopen

end SessionMap

end SessionBroker
