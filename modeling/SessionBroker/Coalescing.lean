/-
  What coalescing bounds, and who is left behind (`session.rs`).

  * `Paced`: the generations of a session are minted `coalesce_secs` apart, and
    the plaintext in memory is that of the current one;
  * `mintTimes`: when refreshes at given times rotate, if all of them succeed;
  * `Carried`: what has become of an entry after such refreshes.  A generation
    is still there while grace, TTL and cap spare it;
  * `coalescing_bounds_minting`.
-/
import SessionBroker.Window

namespace SessionBroker

open Bounded Runs

/-! ## The pace of minting -/

/-- Elapsed time is never overstated. -/
theorem Timestamp.since_le {t t' : Timestamp} (h : t' ≤ t) : t'.secs + t.since t' ≤ t.secs := by
  rw [Timestamp.le_iff] at h
  unfold Timestamp.since
  dsimp only
  split_ifs
  · simpa using h
  · have hmod : Int.bmod (t.secs - t'.secs) (2 ^ 64) ≤ t.secs - t'.secs := by
      rw [Int.bmod_def]
      omega
    omega

/-- The second was minted so many seconds after the first, or later. -/
def Generation.Apart (secs : ℕ) (g h : Generation) : Prop :=
  g.createdAt.secs + secs ≤ h.createdAt.secs

namespace SessionMap

/-- At `now`, generations are spaced and in the past, and a live session holds
    its plaintext. -/
structure Paced (m : SessionMap) (now : Timestamp) : Prop where
  spaced : ∀ sid, (m.history sid).Pairwise (Generation.Apart m.policy.coalesceSecs)
  past : ∀ sid, ∀ g ∈ m.history sid, g.createdAt ≤ now
  held : ∀ sid e, m.sessions sid = some e → e.status = .alive → e.currentToken ≠ none
  slid : ∀ sid e, m.sessions sid = some e → e.idleExp ≤ now.plusSecs m.policy.idleTtlSecs

theorem paced_withDurability (policy : SessionPolicy) (now : Timestamp) :
    (withDurability policy).Paced now :=
  ⟨fun _ => List.Pairwise.nil, (fun _ _ h => by cases h), (fun _ _ h => by cases h),
    fun _ _ h => by cases h⟩

theorem Paced.mono {m : SessionMap} {now now' : Timestamp} (h : m.Paced now) (ht : now ≤ now') :
    m.Paced now' :=
  ⟨h.spaced, fun sid g hg => (h.past sid g hg).trans ht, h.held,
    fun sid e he => (h.slid sid e he).trans (Timestamp.plusSecs_mono ht _)⟩

/-- A move that mints nothing. -/
theorem Paced.frame {m m' : SessionMap} {now : Timestamp} (h : m.Paced now)
    (hp : m'.policy = m.policy) (hh : ∀ sid, m'.history sid = m.history sid)
    (he : ∀ sid e', m'.sessions sid = some e' → ∃ e, m.sessions sid = some e ∧
      (e'.status = .alive → e.status = .alive ∧ e'.currentToken = e.currentToken) ∧
      (e'.idleExp ≤ e.idleExp ∨ e'.idleExp ≤ now.plusSecs m.policy.idleTtlSecs)) :
    m'.Paced now := by
  refine ⟨fun sid => ?_, fun sid => ?_, fun sid e' he' ha => ?_, fun sid e' he' => ?_⟩
  · rw [hp, hh]
    exact h.spaced sid
  · rw [hh]
    exact h.past sid
  · obtain ⟨e, hs, halive, -⟩ := he sid e' he'
    rw [(halive ha).2]
    exact h.held sid e hs (halive ha).1
  · obtain ⟨e, hs, -, hidle⟩ := he sid e' he'
    rw [hp]
    exact hidle.elim (fun hle => hle.trans (h.slid sid e hs)) id

/-- A generation more, for one session. -/
theorem Paced.mint {m m' : SessionMap} {now : Timestamp} {sid : Sid} {e' : SessionEntry}
    {hs : List Generation} {g g' : Generation} (h : m.Paced now) (hp : m'.policy = m.policy)
    (hhist : m.history sid = hs ++ [g])
    (hmine : m'.history sid = hs ++ [{ g with supersededAt := some now }] ++ [g'])
    (hother : ∀ s, s ≠ sid → m'.history s = m.history s) (hg' : g'.createdAt = now)
    (hlate : m.policy.coalesceSecs ≤ now.since g.createdAt)
    (hsessions : m'.sessions = Function.update m.sessions sid (some e'))
    (htoken : e'.currentToken ≠ none)
    (hidle : e'.idleExp ≤ now.plusSecs m.policy.idleTtlSecs) : m'.Paced now := by
  have hpast : ∀ x ∈ hs ++ [g], x.createdAt ≤ now := hhist ▸ h.past sid
  have hspaced : (hs ++ [g]).Pairwise (Generation.Apart m.policy.coalesceSecs) :=
    hhist ▸ h.spaced sid
  rw [List.pairwise_append] at hspaced
  -- the last one is far enough back, and so are those before it
  have hlast : g.createdAt.secs + m.policy.coalesceSecs ≤ now.secs := by
    have := Timestamp.since_le (hpast g (by simp))
    omega
  refine ⟨fun s => ?_, fun s => ?_, ?_, ?_⟩
  · by_cases hx : s = sid
    · rw [hp, hx, hmine, List.pairwise_append, List.pairwise_append]
      refine ⟨⟨hspaced.1, List.pairwise_singleton .., ?_⟩, List.pairwise_singleton .., ?_⟩
      · intro x hm y hy
        rw [List.mem_singleton.1 hy]
        exact hspaced.2.2 x hm g (List.mem_singleton_self g)
      · intro x hm y hy
        rw [List.mem_singleton.1 hy, Generation.Apart, hg']
        rcases List.mem_append.1 hm with hm | hm
        · have := hspaced.2.2 x hm g (List.mem_singleton_self g)
          unfold Generation.Apart at this
          omega
        · rw [List.mem_singleton.1 hm]
          exact hlast
    · rw [hp, hother s hx]
      exact h.spaced s
  · by_cases hx : s = sid
    · rw [hx, hmine]
      intro x hm
      rcases List.mem_append.1 hm with hm | hm
      · rcases List.mem_append.1 hm with hm | hm
        · exact hpast x (List.mem_append_left _ hm)
        · rw [List.mem_singleton.1 hm]
          exact hpast g (by simp)
      · rw [List.mem_singleton.1 hm, hg']
    · rw [hother s hx]
      exact h.past s
  · rw [hsessions]
    exact forall_update h.held (by rintro _ ⟨⟩ _; exact htoken)
  · rw [hsessions, hp]
    exact forall_update h.slid (by rintro _ ⟨⟩; exact hidle)

/-- **One move**, made at `now` if it reads the clock. -/
theorem Paced.move {policy : SessionPolicy} {op : Op} {m m' : SessionMap} {now : Timestamp}
    (hk : m.Kept policy) (ht : m.Tracked now) (h : m.Paced now)
    (hop : ∀ u, op.now = some u → u = now) (hm : Move op m m') : m'.Paced now := by
  have same : ∀ sid e, m.sessions sid = some e → ∃ e₀, m.sessions sid = some e₀ ∧
      (e.status = .alive → e₀.status = .alive ∧ e.currentToken = e₀.currentToken) ∧
      (e.idleExp ≤ e₀.idleExp ∨ e.idleExp ≤ now.plusSecs m.policy.idleTtlSecs) :=
    fun sid e he => ⟨e, he, fun ha => ⟨ha, rfl⟩, Or.inl le_rfl⟩
  cases hm with
  | @create _ sid custody sub token u hh hs =>
    obtain rfl := hop u rfl
    have hnil : m.history sid = [] := by
      rw [← List.length_eq_zero_iff, length_history]
      exact not_not.1 fun hn => hs (Or.inr (hk.counted.generations sid hn))
    have hhist : ∀ s, (m.create sid custody sub token u).1.history s =
        if s = sid then [⟨1, token.hash, u, u.plusSecs m.policy.genTtlSecs, none⟩]
        else m.history s := by
      intro s
      rw [history_create]
      split_ifs with hx hy hy
      · rw [hy, hnil]
        rfl
      · exact absurd hx.symm hy
      · exact absurd hy.symm hx
      · exact List.append_nil _
    refine ⟨fun s => ?_, fun s => ?_, ?_, ?_⟩
    · rw [hhist]
      split_ifs
      · exact List.pairwise_singleton ..
      · exact h.spaced s
    · rw [hhist]
      split_ifs
      · intro g hg
        rw [List.mem_singleton.1 hg]
      · exact h.past s
    · rw [create_sessions]
      exact forall_update h.held (by rintro _ ⟨⟩ _; exact Option.some_ne_none _)
    · rw [create_sessions]
      exact forall_update h.slid (by rintro _ ⟨⟩; exact min_le_left _ _)
  | @refresh _ hash token u sid e e' cookies effects hh hi he hr =>
    obtain rfl := hop u rfl
    have hrec := ht.recorded sid e he
    obtain ⟨hother, hmine⟩ := history_refresh hk.wf hk.killings hh he hrec hr
    rcases hmine with ⟨rfl, hmine⟩ | ⟨hrot, rfl, hmine⟩
    · have hhist : ∀ s, (m.commit sid (e.slide u m.policy) effects).history s = m.history s := by
        intro s
        by_cases hx : s = sid
        · rw [hx, hmine]
        · exact hother s hx
      refine h.frame (commit_policy ..) hhist ?_
      rw [commit_sessions]
      refine forall_update same ?_
      rintro _ ⟨⟩
      exact ⟨e, he, fun ha => ⟨ha, rfl⟩, Or.inr (min_le_left _ _)⟩
    · obtain ⟨hs', es, g, hhist, hgens, -⟩ := hrec.ends
      have halive : e.status = .alive :=
        (SessionEntry.sessionExpiry_eq_none.1 (SessionEntry.mem_of_refreshable hrot.1).1).1
      have hcur : e.current = g := by
        simp [SessionEntry.current, hgens, List.getLast!_eq_getLast?_getD]
      rw [hhist, supersedeLast_append] at hmine
      refine h.mint (commit_policy ..) hhist hmine hother rfl ?_ (commit_sessions ..) ?_
        (min_le_left _ _)
      · rw [← hcur]
        exact hrot.2.resolve_left (h.held sid e he halive)
      · show (e.mint token u m.policy).1.currentToken ≠ none
        rw [SessionEntry.mint_eq]
        simp [SessionEntry.pushed]
  | @kill _ op sid e u reason hkill he ha =>
    refine h.frame rfl (fun s => history_kill ..) ?_
    rw [kill_sessions]
    refine forall_update same ?_
    rintro _ ⟨⟩
    exact ⟨e, he, (fun ha => by cases ha), Or.inl le_rfl⟩
  | @touch _ order custody status sid e he hc =>
    refine h.frame rfl (fun _ => rfl) (forall_update same ?_)
    rintro _ ⟨⟩
    exact ⟨e, he, fun ha => ⟨ha, rfl⟩, Or.inl le_rfl⟩
  | announce => exact h.frame rfl (fun _ => rfl) same
  | @reap _ order u sid e he =>
    refine h.frame (reap_policy ..) (fun s => history_reap ..) ?_
    rw [reap_sessions]
    refine forall_update same ?_
    rintro _ ⟨⟩
    refine ⟨e, he, fun ha => ?_, Or.inl ?_⟩
    · simpa using ha
    · simp
  | @remove _ order u sid e he hcol =>
    refine h.frame (forget_policy ..) (fun s => history_forget ..) ?_
    rw [forget_sessions]
    exact forall_update same (fun _ h => by cases h)

/-- **Runs at nondecreasing times.** -/
theorem paced_run (policy : SessionPolicy) {ops : List Op} (hf : Fresh ops)
    (hn : Nondecreasing Op.now ops) {now : Timestamp} (ht : NotBefore Op.now ops now) :
    (runs policy ops).Paced now := by
  have hrun : (fun t m => m.Kept policy ∧ m.Tracked t ∧ m.Paced t) now
      (run step (withDurability policy) ops) :=
    timed_moves_invariant Fresh (fun t m => m.Kept policy ∧ m.Tracked t ∧ m.Paced t)
      (fun _ _ h => h.of_append) (fun _ _ h => step_moves (h.from policy).freshIn)
      (fun t => ⟨kept_withDurability policy, tracked_withDurability policy t,
        paced_withDurability policy t⟩)
      (fun t t' m htt h => ⟨h.1, h.2.1.mono htt, h.2.2.mono htt⟩)
      (fun _ op t m m' _ hop h hm => ⟨h.1.move hm, h.2.1.move h.1 hop hm,
        h.2.2.move h.1 h.2.1 hop hm⟩) ops hf hn now ht
  exact hrun.2.2

end SessionMap

/-! ## A batch of refreshes -/

/-- A request to refresh, with the token that a mint would draw. -/
structure RefreshCall where
  hash : TokenHash
  token : SessionToken
  now : Timestamp

def RefreshCall.op (x : RefreshCall) : Op := .refresh x.hash x.token x.now

/-- When refreshes at some times rotate, if all of them succeed. -/
def mintTimes (coalesceSecs : ℕ) : Timestamp → List Timestamp → List Timestamp
  | _, [] => []
  | created, t :: ts =>
    if t.since created < coalesceSecs then mintTimes coalesceSecs created ts
    else t :: mintTimes coalesceSecs t ts

theorem mintTimes_concat (n : ℕ) (created : Timestamp) (ts : List Timestamp) (u : Timestamp) :
    mintTimes n created (ts ++ [u]) = mintTimes n created ts ++
      if u.since ((mintTimes n created ts).getLast?.getD created) < n then [] else [u] := by
  induction ts generalizing created with
  | nil =>
    simp only [List.nil_append, mintTimes]
    rfl
  | cons t ts ih =>
    rw [List.cons_append, mintTimes, mintTimes]
    split_ifs with ht h h
    · rw [ih, if_pos h]
    · rw [ih, if_neg h]
    · rw [List.getLast?_cons, Option.getD_some] at h
      rw [ih, if_pos h, List.cons_append]
    · rw [List.getLast?_cons, Option.getD_some] at h
      rw [ih, if_neg h, List.cons_append]

theorem mem_mintTimes {n : ℕ} {created t : Timestamp} {ts : List Timestamp}
    (h : t ∈ mintTimes n created ts) : t ∈ ts := by
  induction ts generalizing created with
  | nil => cases h
  | cons u ts ih =>
    rw [mintTimes] at h
    split_ifs at h
    · exact List.mem_cons_of_mem _ (ih h)
    · rcases List.mem_cons.1 h with rfl | h
      · exact List.mem_cons_self ..
      · exact List.mem_cons_of_mem _ (ih h)

namespace Generation

/-- The generation, mints at these times later: the first one superseded it, if
    it was current. -/
def aged (g : Generation) (mints : List Timestamp) : Generation :=
  { g with supersededAt := g.supersededAt.or mints.head? }

/-- At `now`, mints at these times later, a generation with `newer` ones after
    it still refreshes. -/
def Spared (g : Generation) (policy : SessionPolicy) (newer : ℕ) (mints : List Timestamp)
    (now : Timestamp) : Prop :=
  mints = [] ∨ newer + mints.length < policy.cap ∧
    now < (g.aged mints).resourceValidUntil policy.graceSecs

@[simp] theorem aged_nil (g : Generation) : g.aged [] = g := by
  simp [aged]

theorem aged_concat (g : Generation) (mints : List Timestamp) (u : Timestamp) :
    g.aged (mints ++ [u]) = if (g.aged mints).supersededAt = none then
      { g.aged mints with supersededAt := some u } else g.aged mints := by
  cases hg : g.supersededAt <;> cases mints <;> simp [aged, hg]

@[simp] theorem aged_tokenHash (g : Generation) (mints : List Timestamp) :
    (g.aged mints).tokenHash = g.tokenHash := rfl

end Generation

namespace SessionEntry

/-- What refreshes that minted at these times have made of an entry. -/
structure Carried (e : SessionEntry) (policy : SessionPolicy) (mints : List Timestamp)
    (e' : SessionEntry) : Prop where
  status : e'.status = e.status
  custody : e'.custodyStatus = e.custodyStatus
  absolute : e'.absoluteExp = e.absoluteExp
  idle : e.idleExp ≤ e'.idleExp
  created : e'.current.createdAt = mints.getLast?.getD e.current.createdAt
  same : mints = [] → e'.gens = e.gens ∧ e'.currentGen = e.currentGen
  held : ∀ older g newer, e.gens = older ++ g :: newer → ∀ t, (∀ u ∈ mints, u ≤ t) →
    g.Spared policy newer.length mints t → ∃ older' newer',
      e'.gens = older' ++ g.aged mints :: newer' ∧ newer'.length ≤ newer.length + mints.length

section
variable {e e' : SessionEntry} {policy : SessionPolicy} {token : SessionToken} {t u : Timestamp}
  {mints : List Timestamp}

theorem Carried.refl (e : SessionEntry) (policy : SessionPolicy) : e.Carried policy [] e where
  status := rfl
  custody := rfl
  absolute := rfl
  idle := le_rfl
  created := rfl
  same := fun _ => ⟨rfl, rfl⟩
  held := fun older g newer hg t _ _ => ⟨older, newer, by rw [hg, Generation.aged_nil], by simp⟩

/-- The last generation is the one not superseded. -/
theorem Sound.superseded_iff {older newer : List Generation} {g : Generation} (hs : e.Sound policy)
    (hg : e.gens = older ++ g :: newer) : g.supersededAt = none ↔ newer = [] := by
  obtain ⟨gs, c, hc⟩ := hs.ends
  rcases List.eq_nil_or_concat newer with rfl | ⟨ns, x, rfl⟩
  · obtain ⟨-, hlast⟩ := List.append_inj' (hc.gens.symm.trans hg) rfl
    rw [← List.singleton_inj.1 hlast]
    exact iff_of_true hc.current rfl
  · rw [List.concat_eq_append, ← List.cons_append, ← List.append_assoc] at hg
    obtain ⟨hinit, -⟩ := List.append_inj' (hc.gens.symm.trans hg) rfl
    exact iff_of_false (hc.superseded g (by rw [hinit]; simp)) (by simp)

/-- A mint supersedes the last generation, and keeps what is valid and within
    the cap. -/
theorem mint_keeps (token : SessionToken) {older newer : List Generation} {g : Generation}
    (hs : e.Sound policy) (hg : e.gens = older ++ g :: newer)
    (hcap : newer.length + 1 < policy.cap) (hut : u ≤ t)
    (hvalid : t < (if newer = [] then { g with supersededAt := some u } else g).resourceValidUntil
      policy.graceSecs) :
    ∃ older' newer', (e.mint token u policy).1.gens =
      older' ++ (if newer = [] then { g with supersededAt := some u } else g) :: newer' ∧
        newer'.length ≤ newer.length + 1 := by
  set g' := if newer = [] then { g with supersededAt := some u } else g with hg'
  obtain ⟨rest, hpushed, hrest⟩ : ∃ rest, (e.pushed token u policy).gens = older ++ g' :: rest ∧
      rest.length = newer.length + 1 := by
    simp only [pushed, hg]
    rcases List.eq_nil_or_concat newer with rfl | ⟨ns, x, rfl⟩
    · rw [supersedeLast_append, List.append_assoc]
      exact ⟨_, rfl, rfl⟩
    · rw [List.concat_eq_append, ← List.cons_append, ← List.append_assoc, supersedeLast_append,
        List.append_assoc, List.append_assoc, List.cons_append, hg', if_neg (by simp)]
      exact ⟨_, rfl, by simp⟩
  have hstays : (e.pushed token u policy).lapsed u policy g' = false := by
    simp [lapsed, not_le.2 (hut.trans_lt hvalid)]
  have hgens : (e.mint token u policy).1.gens =
      keepLast policy.cap ((e.pushed token u policy).kept u policy) := reap_gens hs.memory
  have hfilter := List.length_filter_le (fun g => !(e.pushed token u policy).lapsed u policy g) rest
  rw [kept, hpushed, List.filter_append, List.filter_cons_of_pos (by rw [hstays]; rfl),
    keepLast_append_of_le _ (by rw [List.length_cons]; omega)] at hgens
  exact ⟨_, _, hgens, hfilter.trans hrest.le⟩

/-- **One refresh more.** -/
theorem Carried.refresh {e₁ e₂ : SessionEntry} {hash : TokenHash} {cookies : IssuedCookies}
    {effects : IndexEffects} (h : e.Carried policy mints e₁) (hs : e₁.Sound policy)
    (htoken : e₁.currentToken ≠ none) (hnew : token.hash ∉ e₁.allHashes)
    (hslid : e₁.idleExp ≤ u.plusSecs policy.idleTtlSecs)
    (hr : e₁.refresh hash token u policy = .ok (e₂, cookies, effects)) :
    e.Carried policy (mints ++ if u.since (mints.getLast?.getD e.current.createdAt) <
      policy.coalesceSecs then [] else [u]) e₂ := by
  have hidle : ∀ x : SessionEntry, x.idleExp = e₁.idleExp → x.absoluteExp = e₁.absoluteExp →
      e.idleExp ≤ (x.slide u policy).idleExp := by
    intro x _ hx
    refine h.idle.trans (le_min hslid ?_)
    rw [hx]
    exact hs.idle
  rw [← h.created]
  rcases (refresh_cases hr).2 with ⟨_, _, hsoon, rfl, -⟩ | ⟨hlate, rfl, -⟩
  · rw [if_pos hsoon, List.append_nil]
    exact ⟨h.status, h.custody, h.absolute, hidle e₁ rfl rfl, h.created, h.same, h.held⟩
  · have hlate := hlate.resolve_left htoken
    rw [if_neg (not_lt.2 hlate)]
    obtain ⟨gens, retired, purged, hframe⟩ := (e₁.pushed token u policy).reap_frame u policy
    have hm : (e₁.mint token u policy).1 = { e₁.pushed token u policy with gens, retired } :=
      congrArg Prod.fst hframe
    refine ⟨?_, ?_, ?_, hidle _ ?_ ?_, ?_, (fun hnil => absurd hnil (by simp)), ?_⟩
    · show (e₁.mint token u policy).1.status = _
      rw [hm]
      exact h.status
    · show (e₁.mint token u policy).1.custodyStatus = _
      rw [hm]
      exact h.custody
    · show (e₁.mint token u policy).1.absoluteExp = _
      rw [hm]
      exact h.absolute
    · rw [hm]
      rfl
    · rw [hm]
      rfl
    · show (e₁.mint token u policy).1.current.createdAt = _
      rw [mint_eq]
      show ((e₁.pushed token u policy).reapGenerations u policy).1.current.createdAt = _
      rw [(hs.pushed u hnew).reap_current u, List.getLast?_concat, Option.getD_some]
      simp [SessionEntry.current, SessionEntry.pushed, List.getLast!_eq_getLast?_getD, minted]
    · intro older g newer hg t ht hspared
      have hut : u ≤ t := ht u (by simp)
      obtain ⟨hcap, hvalid⟩ := hspared.resolve_left (by simp)
      rw [List.length_append, List.length_singleton] at hcap
      -- what is good now was good before this mint
      have hbefore : g.Spared policy newer.length mints t := by
        by_cases hnil : mints = []
        · exact Or.inl hnil
        · refine Or.inr ⟨by omega, ?_⟩
          rwa [Generation.aged, List.head?_append_of_ne_nil _ hnil] at hvalid
      obtain ⟨older', newer', hg', hlen⟩ :=
        h.held older g newer hg t (fun v hv => ht v (List.mem_append_left _ hv)) hbefore
      have haged : (if newer' = [] then { g.aged mints with supersededAt := some u }
          else g.aged mints) = g.aged (mints ++ [u]) := by
        rw [Generation.aged_concat]
        exact if_congr (hs.superseded_iff hg').symm rfl rfl
      obtain ⟨older'', newer'', hg'', hlen'⟩ := mint_keeps token hs hg' (by omega) hut
        (by rwa [haged])
      rw [haged] at hg''
      exact ⟨older'', newer'', hg'', by rw [List.length_append, List.length_singleton]; omega⟩

/-- A cookie that is spared still refreshes. -/
theorem Carried.refreshable {hash : TokenHash} (h : e.Carried policy mints e')
    (hs : e.Sound policy) (hs' : e'.Sound policy)
    (hok : (e.classify hash t policy).refreshable = true) (ht : ∀ u ∈ mints, u ≤ t)
    (hspared : ∀ older g newer, e.gens = older ++ g :: newer → g.tokenHash = hash →
      g.Spared policy newer.length mints t) :
    (e'.classify hash t policy).refreshable = true ∧ hash ∈ e'.allHashes := by
  obtain ⟨hx, g, hg, rfl⟩ := mem_of_refreshable hok
  have hx' : e'.sessionExpiry t policy = none := by
    obtain ⟨hstatus, habsolute, hidle, hdead⟩ := sessionExpiry_eq_none.1 hx
    rw [sessionExpiry_eq_none, h.status, h.custody, h.absolute]
    exact ⟨hstatus, habsolute, hidle.trans_le h.idle, hdead⟩
  obtain ⟨older, newer, hgens⟩ := List.append_of_mem hg
  have hgood := hspared older g newer hgens rfl
  by_cases hnil : mints = []
  · obtain ⟨hsame, hcurrent⟩ := h.same hnil
    have hg' : g ∈ e'.gens := hsame ▸ hg
    rw [classify_of_mem hs.gens_nodup hx hg] at hok
    rw [classify_of_mem hs'.gens_nodup hx' hg', hcurrent]
    refine ⟨?_, List.mem_append_left _ (List.mem_map_of_mem hg')⟩
    split_ifs at hok ⊢ <;> first | rfl | cases hok
  · obtain ⟨older', newer', hgens', -⟩ := h.held older g newer hgens t ht hgood
    have hg' : g.aged mints ∈ e'.gens := by
      rw [hgens']
      exact List.mem_append_right _ (List.mem_cons_self ..)
    have hvalid := (hgood.resolve_left hnil).2
    refine ⟨?_, List.mem_append_left _ (List.mem_map.2 ⟨_, hg', rfl⟩)⟩
    rw [← Generation.aged_tokenHash g mints, classify_of_mem hs'.gens_nodup hx' hg', if_pos hvalid]
    rfl

end

end SessionEntry

namespace SessionMap

/-- Refreshes by cookies of one session, each of them good at its own reading
    of the clock before the first. -/
structure Concurrent (policy : SessionPolicy) (ops : List Op) (sid : Sid) (e : SessionEntry)
    (batch : List RefreshCall) : Prop where
  fresh : Fresh (ops ++ batch.map RefreshCall.op)
  ordered : Nondecreasing Op.now (ops ++ batch.map RefreshCall.op)
  entry : (runs policy ops).sessions sid = some e
  own : ∀ x ∈ batch, (runs policy ops).index x.hash = some sid
  good : ∀ x ∈ batch, ((runs policy ops).resolve x.hash x.now).refreshable = true

/-- When its turn comes, the generation of each cookie is spared. -/
def SparesEach (policy : SessionPolicy) (e : SessionEntry) (batch : List RefreshCall) : Prop :=
  ∀ before x after, batch = before ++ x :: after →
    ∀ older g newer, e.gens = older ++ g :: newer → g.tokenHash = x.hash →
      g.Spared policy newer.length
        (mintTimes policy.coalesceSecs e.current.createdAt (before.map (·.now))) x.now

variable {policy : SessionPolicy} {ops : List Op} {sid : Sid} {e : SessionEntry}
  {batch : List RefreshCall}

/-- **A refresh whose turn it is** is served. -/
theorem Concurrent.serves (h : Concurrent policy ops sid e batch) (hs : SparesEach policy e batch)
    {before after : List RefreshCall} {x : RefreshCall} (hx : batch = before ++ x :: after)
    {e₁ : SessionEntry}
    (he₁ : (runs policy (ops ++ before.map RefreshCall.op)).sessions sid = some e₁)
    (hc : e.Carried policy (mintTimes policy.coalesceSecs e.current.createdAt
      (before.map (·.now))) e₁) :
    ∃ e₂ cookies effects,
      (runs policy (ops ++ before.map RefreshCall.op)).index x.hash = some sid ∧
      e₁.refresh x.hash x.token x.now policy = .ok (e₂, cookies, effects) ∧
      e.Carried policy (mintTimes policy.coalesceSecs e.current.createdAt
        ((before ++ [x]).map (·.now))) e₂ := by
  have hmem : x ∈ batch := by simp [hx]
  have hsplit : ops ++ batch.map RefreshCall.op =
      (ops ++ before.map RefreshCall.op) ++ [x.op] ++ after.map RefreshCall.op := by
    simp [hx]
  have hfresh := (hsplit ▸ h.fresh).of_append
  have hordered : Nondecreasing Op.now ((ops ++ before.map RefreshCall.op) ++ [x.op]) :=
    (hsplit ▸ h.ordered).of_append
  have hnot : NotBefore Op.now (ops ++ before.map RefreshCall.op) x.now := hordered.notBefore rfl
  have hk := kept_run policy (h.fresh.of_append)
  have hk₁ := kept_run policy hfresh.of_append
  have hp₁ := paced_run policy hfresh.of_append hordered.of_append hnot
  have hsound : e.Sound policy := hk.policy ▸ hk.wf.sound sid e h.entry
  have hsound₁ : e₁.Sound policy := hk₁.policy ▸ hk₁.wf.sound sid e₁ he₁
  -- the cookie was good, and it is spared
  have hok : (e.classify x.hash x.now policy).refreshable = true := by
    have := h.good x hmem
    simpa only [resolve, h.own x hmem, h.entry, hk.policy] using this
  have hpast : ∀ u ∈ mintTimes policy.coalesceSecs e.current.createdAt (before.map (·.now)),
      u ≤ x.now := by
    intro u hu
    refine hnot u ?_
    obtain ⟨y, hy, rfl⟩ := List.mem_map.1 (mem_mintTimes hu)
    exact List.mem_filterMap.2 ⟨y.op, List.mem_append_right _ (List.mem_map_of_mem hy), rfl⟩
  obtain ⟨hok₁, hhash⟩ := hc.refreshable hsound hsound₁ hok hpast (hs before x after hx)
  have hindex := (hk₁.wf.index.mem he₁).2 hhash
  -- so it is served
  obtain ⟨⟨e₂, cookies, effects⟩, hr⟩ :
      ∃ r, e₁.refresh x.hash x.token x.now policy = .ok r := SessionEntry.refresh_ok _ hok₁
  refine ⟨e₂, cookies, effects, hindex, hr, ?_⟩
  have halive : e₁.status = .alive :=
    (SessionEntry.sessionExpiry_eq_none.1 (SessionEntry.mem_of_refreshable hok₁).1).1
  have hnew : x.token.hash ∉ e₁.allHashes := by
    intro hm
    have hheld := (hk₁.wf.index.mem he₁).2 hm
    refine (hfresh.from policy).freshIn.1 x.token.hash rfl (Or.inl fun hnone => ?_)
    exact Option.some_ne_none sid (hheld.symm.trans hnone)
  rw [List.map_append, List.map_singleton, mintTimes_concat]
  exact hc.refresh hsound₁ (hp₁.held sid e₁ he₁ halive) hnew
    (hk₁.policy ▸ hp₁.slid sid e₁ he₁) hr

/-- **The batch up to a turn**: what it has made of the entry. -/
theorem Concurrent.carried (h : Concurrent policy ops sid e batch) (hs : SparesEach policy e batch)
    (before after : List RefreshCall) (hbatch : batch = before ++ after) :
    ∃ e₁, (runs policy (ops ++ before.map RefreshCall.op)).sessions sid = some e₁ ∧
      e.Carried policy (mintTimes policy.coalesceSecs e.current.createdAt
        (before.map (·.now))) e₁ := by
  induction before using List.reverseRecOn generalizing after with
  | nil => exact ⟨e, by simpa using h.entry, SessionEntry.Carried.refl e policy⟩
  | append_singleton before x ih =>
    rw [List.append_assoc] at hbatch
    obtain ⟨e₁, he₁, hc⟩ := ih _ hbatch
    obtain ⟨e₂, cookies, effects, hindex, hr, hc₂⟩ := h.serves hs hbatch he₁ hc
    refine ⟨e₂, ?_, hc₂⟩
    have hfresh := h.fresh
    rw [hbatch, List.map_append, ← List.append_assoc] at hfresh
    have hpolicy := (kept_run policy hfresh.of_append).policy
    rw [List.map_append, ← List.append_assoc, List.map_singleton, runs, run_concat]
    show ((runs policy (ops ++ before.map RefreshCall.op)).call
      (.refresh x.hash x.token x.now)).1.sessions sid = some e₂
    simp [call, refresh, hindex, he₁, hpolicy, hr]

/-- A refresh that does not rotate gives out the current generation. -/
theorem current_of_coalesced {m : SessionMap} {now u : Timestamp} {hash : TokenHash}
    {token : SessionToken} {cookies : IssuedCookies} (hk : m.Kept policy) (ht : m.Tracked u)
    (hindex : m.index hash = some sid) (hr : (m.refresh hash token now).2 = .ok cookies)
    (hrot : cookies.rotated = false) : ∃ older g, m.history sid = older ++ [g] ∧
      cookies.token.hash = g.tokenHash ∧ cookies.sessionMeta.gen = g.genNo := by
  unfold refresh at hr
  rw [hindex] at hr
  dsimp only at hr
  cases he : m.sessions sid with
  | none =>
    rw [he] at hr
    cases hr
  | some e =>
    rw [he] at hr
    dsimp only at hr
    rcases hre : e.refresh hash token now m.policy with reason | ⟨e', cookies', effects⟩
    · rw [hre] at hr
      cases hr
    · rw [hre] at hr
      obtain rfl : cookies' = cookies := by simpa using hr
      rcases (SessionEntry.refresh_cases hre).2 with ⟨current, hc, -, rfl, -, rfl⟩ | ⟨-, -, -, rfl⟩
      · obtain ⟨older, es, g, hhist, hgens, -⟩ := (ht.recorded sid e he).ends
        obtain ⟨gs, c, hends⟩ := (hk.wf.sound sid e he).ends
        obtain ⟨-, hlast⟩ := List.append_inj' (hends.gens.symm.trans hgens) rfl
        obtain rfl := List.singleton_inj.1 hlast
        exact ⟨older, c, hhist, hends.token current hc, hends.genNo.symm⟩
      · cases hrot

/-- **Coalescing bounds minting.**  Generations are minted `coalesce_secs`
    apart, a refresh that does not rotate returns the current one, and of
    refreshes by cookies that are good those succeed whose generation is spared
    until their turn: by the grace, its TTL and the cap. -/
theorem coalescing_bounds_minting (policy : SessionPolicy) (ops : List Op) (hf : Fresh ops)
    (hn : Nondecreasing Op.now ops) (sid : Sid) :
    ((runs policy ops).history sid).Pairwise (Generation.Apart policy.coalesceSecs) ∧
    (∀ hash token now cookies, (runs policy ops).index hash = some sid →
      ((runs policy ops).refresh hash token now).2 = .ok cookies → cookies.rotated = false →
        ∃ older g, (runs policy ops).history sid = older ++ [g] ∧
          cookies.token.hash = g.tokenHash ∧ cookies.sessionMeta.gen = g.genNo) ∧
    ∀ e batch, Concurrent policy ops sid e batch → SparesEach policy e batch →
      ∀ before x after, batch = before ++ x :: after → ∃ cookies,
        ((runs policy (ops ++ before.map RefreshCall.op)).refresh x.hash x.token x.now).2 =
          .ok cookies := by
  have hk := kept_run policy hf
  have : Nonempty Timestamp := ⟨⟨0⟩⟩
  obtain ⟨now, hnow⟩ := exists_notBefore Op.now ops
  refine ⟨?_, ?_, ?_⟩
  · have hp := (paced_run policy hf hn hnow).spaced sid
    rwa [hk.policy] at hp
  · intro hash token t cookies hindex hr hrot
    exact current_of_coalesced hk (tracked_run policy hf hn hnow) hindex hr hrot
  · intro e batch h hs before x after hx
    obtain ⟨e₁, he₁, hc⟩ := h.carried hs before (x :: after) hx
    obtain ⟨e₂, cookies, effects, hindex, hr, -⟩ := h.serves hs hx he₁ hc
    have hfresh := h.fresh
    rw [hx, List.map_append, ← List.append_assoc] at hfresh
    refine ⟨cookies, ?_⟩
    simp [refresh, hindex, he₁, (kept_run policy hfresh.of_append).policy, hr]

/-- A login, and two tabs that wake up after its cookie's TTL. -/
theorem woken_tabs_collide :
    let ops := [Op.create ⟨"s"⟩ ⟨"c"⟩ "alice" .sample1 ⟨0⟩]
    let first := Op.refresh SessionToken.sample1.hash .sample2 ⟨600⟩
    ((runs {} ops).resolve SessionToken.sample1.hash ⟨600⟩).refreshable = true ∧
      ((runs {} ops).refresh SessionToken.sample1.hash .sample2 ⟨600⟩).2.toOption.isSome = true ∧
      ((runs {} (ops ++ [first])).refresh SessionToken.sample1.hash .sample3 ⟨600⟩).2 =
        .error (.retired ⟨"s"⟩ 1) := by
  decide

/-- At a concrete run: two tabs with the cookie of a login, one after its
    rotation. -/
theorem coalescing_bounds_minting_tabs :
    let ops := [Op.create ⟨"s"⟩ ⟨"c"⟩ "alice" .sample1 ⟨0⟩]
    let first : RefreshCall := ⟨SessionToken.sample1.hash, .sample2, ⟨40⟩⟩
    ∃ cookies, ((runs {} (ops ++ [first].map RefreshCall.op)).refresh SessionToken.sample1.hash
      .sample3 ⟨41⟩).2 = .ok cookies := by
  intro ops first
  let second : RefreshCall := ⟨SessionToken.sample1.hash, .sample3, ⟨41⟩⟩
  let e := newEntry {} ⟨"s"⟩ ⟨"c"⟩ "alice" .sample1 ⟨0⟩
  have hc : Concurrent {} ops ⟨"s"⟩ e [first, second] :=
    ⟨by decide, by decide, by decide, by decide, by decide⟩
  have hs : SparesEach {} e [first, second] := by
    intro before x after hx older g newer hg hh
    rcases before with _ | ⟨y, before⟩
    · exact Or.inl rfl
    · obtain ⟨rfl, hrest⟩ := List.cons.inj hx
      rcases before with _ | ⟨z, before⟩
      · obtain ⟨rfl, -⟩ := List.cons.inj hrest
        rcases older with _ | ⟨_, older⟩
        · obtain ⟨rfl, rfl⟩ := List.cons.inj hg
          exact Or.inr (by decide)
        · simp [e, newEntry] at hg
      · simp at hrest
  exact (coalescing_bounds_minting {} ops (by decide) (by decide) ⟨"s"⟩).2.2 e [first, second] hc hs
    [first] second [] rfl

end SessionMap

end SessionBroker
