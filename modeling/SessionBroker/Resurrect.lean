/-
  Which restarts bring a cookie back.

  The cap pushes generations out of an entry that could still authenticate; the
  entry remembers their hashes, so their rows stay, and a restart loads every
  row of a session.

  * `Remembers`: whatever an entry remembers beyond its generations can no
    longer authenticate; what a mint and a sweep make of that;
  * `Spent`: every session that is not over remembers only such;
  * `restart_safe_iff`: a restart is safe all along a run exactly if no mint
    pushes out, and remembers, what could still authenticate.
-/
import SessionBroker.Restart
import SessionBroker.Window

namespace SessionBroker

open Bounded Relation Runs

namespace SessionEntry

/-! ## What an entry remembers -/

/-- Of the hashes an entry knows, those of its generations alone authenticate. -/
def Remembers (e : SessionEntry) (policy : SessionPolicy) (now : Timestamp)
    (history : List Generation) : Prop :=
  ∀ g ∈ history, g.tokenHash ∈ e.allHashes →
    g ∈ e.gens ∨ g.resourceValidUntil policy.graceSecs ≤ now

section
variable {e : SessionEntry} {policy : SessionPolicy} {token : SessionToken} {now now' : Timestamp}
  {history : List Generation}

theorem Remembers.mono (h : e.Remembers policy now history) (ht : now ≤ now') :
    e.Remembers policy now' history :=
  fun g hg hh => (h g hg hh).imp_right (·.trans ht)

/-- A reap that drops only what cannot authenticate. -/
theorem Remembers.reap (hs : e.Sound policy) (h : e.Remembers policy now history)
    (hd : ∀ g ∈ e.dropped now policy, g.resourceValidUntil policy.graceSecs ≤ now) :
    (e.reapGenerations now policy).1.Remembers policy now history := by
  intro g hg hh
  have hh' : g.tokenHash ∈ e.allHashes :=
    (reap_hashes now hs.memory).subset (List.mem_append_left _ hh)
  rcases h g hg hh' with hg' | hv
  · have hperm := (gens_perm e now policy).mem_iff (a := g)
    rcases List.mem_append.1 (hperm.2 hg') with hx | hx
    · exact Or.inr (hd g hx)
    · left
      rwa [reap_gens hs.memory]
  · exact Or.inr hv

/-- Within the cap, a reap drops only what lapsed. -/
theorem dropped_lapsed (hcap : e.gens.length ≤ policy.cap) :
    ∀ g ∈ e.dropped now policy, g.resourceValidUntil policy.graceSecs ≤ now := by
  intro g hg
  have hkept : (e.kept now policy).length ≤ policy.cap :=
    (List.length_filter_le ..).trans hcap
  rw [dropped, overflow_of_length_le hkept, List.append_nil, List.mem_filter] at hg
  have hl : g.genNo ≠ e.currentGen ∧ g.resourceValidUntil policy.graceSecs ≤ now := by
    simpa [lapsed] using hg.2
  exact hl.2

/-- The generations that could still authenticate once the current one is
    superseded. -/
def stillValid (e : SessionEntry) (now : Timestamp) (policy : SessionPolicy) : ℕ :=
  (supersedeLast now e.gens).countP fun g => now < g.resourceValidUntil policy.graceSecs

/-- With room for all of them, a mint drops only what cannot authenticate. -/
theorem dropped_pushed (hc : Chronicle policy now (e.pushed token now policy).gens)
    (hroom : e.stillValid now policy < policy.cap) :
    ∀ g ∈ (e.pushed token now policy).dropped now policy,
      g.resourceValidUntil policy.graceSecs ≤ now := by
  set p := e.pushed token now policy with hp
  intro g hg
  rcases List.mem_append.1 hg with hg | hg
  · have hl : g.genNo ≠ p.currentGen ∧ g.resourceValidUntil policy.graceSecs ≤ now := by
      simpa [lapsed] using (List.mem_filter.1 hg).2
    exact hl.2
  · by_contra hv
    rw [not_le] at hv
    -- what is kept after `g` ends no earlier, so the cap would have room for it
    obtain ⟨a, b, hab⟩ := List.append_of_mem hg
    have hsplit : p.kept now policy =
        a ++ g :: (b ++ keepLast policy.cap (p.kept now policy)) := by
      conv_lhs => rw [← overflow_append_keepLast policy.cap (p.kept now policy), hab]
      simp
    set rest := b ++ keepLast policy.cap (p.kept now policy) with hrest
    have hover : policy.cap < (p.kept now policy).length := by
      by_contra hx
      rw [overflow_of_length_le (not_lt.1 hx)] at hg
      cases hg
    have hlen : policy.cap ≤ rest.length := by
      rw [hrest, List.length_append, keepLast, List.length_drop]
      omega
    have hsub : (g :: rest).Sublist p.gens := by
      refine List.Sublist.trans ?_ (List.filter_sublist (p := fun g => !p.lapsed now policy g))
      show (g :: rest).Sublist (p.kept now policy)
      rw [hsplit]
      exact List.sublist_append_right ..
    have hall : ∀ x ∈ g :: rest, now < x.resourceValidUntil policy.graceSecs := by
      have hpw := (hc.sublist hsub).valid
      rw [List.pairwise_cons] at hpw
      intro x hx
      rcases List.mem_cons.1 hx with rfl | hx
      · exact hv
      · exact hv.trans_le (hpw.1 x hx)
    have hcount := hsub.countP_le (p := fun g => now < g.resourceValidUntil policy.graceSecs)
    rw [List.countP_eq_length.2 (by simpa using hall)] at hcount
    have hpush : p.gens.countP (fun g => now < g.resourceValidUntil policy.graceSecs) ≤
        e.stillValid now policy + 1 := by
      rw [hp, SessionEntry.pushed, List.countP_append, stillValid]
      exact Nat.add_le_add_left List.countP_le_length _
    simp only [List.length_cons] at hcount
    omega

theorem Remembers.pushed (hn : (history.map (·.tokenHash)).Nodup)
    (hf : token.hash ∉ history.map (·.tokenHash)) (hr : e.Recorded history)
    (h : e.Remembers policy now history) :
    (e.pushed token now policy).Remembers policy now
      (supersedeLast now history ++ [e.minted token now policy]) := by
  obtain ⟨hs', es, l, rfl, he, -⟩ := hr.ends
  have hgens : (e.pushed token now policy).gens =
      es ++ [{ l with supersededAt := some now }] ++ [e.minted token now policy] := by
    simp only [SessionEntry.pushed, he, supersedeLast_append]
  intro g hg hh
  rw [hgens]
  rw [supersedeLast_append, List.mem_append, List.mem_append] at hg
  rcases hg with (hg | hg) | hg
  · -- an older generation, unchanged
    have hold : g ∈ hs' ++ [l] := List.mem_append_left _ hg
    have hne : g.tokenHash ≠ token.hash := fun hx => hf (hx ▸ List.mem_map_of_mem hold)
    have hh' : g.tokenHash ∈ e.allHashes :=
      (List.mem_cons.1 (pushed_allHashes_perm.mem_iff.1 hh)).resolve_left hne
    refine (h g hold hh').imp_left fun hx => ?_
    rw [he, List.mem_append] at hx
    rcases hx with hx | hx
    · exact List.mem_append_left _ (List.mem_append_left _ hx)
    · rw [List.map_append, List.nodup_append] at hn
      rw [List.mem_singleton.1 hx] at hg
      exact absurd rfl (hn.2.2 _ (List.mem_map_of_mem hg) _ (by simp))
  · exact Or.inl (List.mem_append_left _ (List.mem_append_right _ hg))
  · exact Or.inl (List.mem_append_right _ hg)

/-- An entry without a memory remembers nothing else. -/
theorem remembers_of_forgetful (hm : e.retired = []) (hn : (history.map (·.tokenHash)).Nodup)
    (hr : e.Recorded history) : e.Remembers policy now history := by
  intro g hg hh
  left
  rw [allHashes, hm, List.map_nil, List.append_nil] at hh
  obtain ⟨g', hg', hgg⟩ := List.mem_map.1 hh
  rwa [← List.inj_on_of_nodup_map hn (hr.sublist.subset hg') hg hgg]

/-- A mint that spares what could still authenticate. -/
theorem Remembers.mint (hs : e.Sound policy) (hf : token.hash ∉ e.allHashes)
    (hc : Chronicle policy now history) (hn : (history.map (·.tokenHash)).Nodup)
    (hfh : token.hash ∉ history.map (·.tokenHash)) (hr : e.Recorded history)
    (h : e.Remembers policy now history)
    (hroom : policy.retiredMemory = 0 ∨ e.stillValid now policy < policy.cap) :
    (e.mint token now policy).1.Remembers policy now
      (supersedeLast now history ++ [e.minted token now policy]) := by
  have hp := hs.pushed now hf
  have hrec := hr.pushed token now policy
  rcases hroom with hm | hroom
  · refine remembers_of_forgetful ?_ ?_ (hrec.reap now hp)
    · have hle : ((e.pushed token now policy).reapGenerations now policy).1.retired.length ≤ 0 :=
        hm ▸ reap_retired_le hp.memory
      exact List.length_eq_zero_iff.1 (Nat.le_zero.1 hle)
    · rw [List.map_append, map_hash_supersedeLast, List.nodup_append]
      refine ⟨hn, by simp, fun a ha b hb hab => hfh ?_⟩
      rw [List.map_singleton, List.mem_singleton, minted_tokenHash] at hb
      rwa [← hb, ← hab]
  · obtain ⟨hs', es, l, hhist, -⟩ := hr.ends
    have hchron : Chronicle policy now
        (supersedeLast now history ++ [e.minted token now policy]) := by
      rw [hhist] at hc ⊢
      rw [supersedeLast_append]
      exact hc.push rfl rfl
    exact (h.pushed hn hfh hr).reap hp
      (dropped_pushed (hchron.sublist hrec.sublist) hroom)

/-- **A mint without room** remembers a generation that could still authenticate. -/
theorem not_remembers_mint (hs : e.Sound policy) (hf : token.hash ∉ e.allHashes)
    (hr : e.Recorded history) (hcap : e.gens.length ≤ policy.cap) (hm : policy.retiredMemory ≠ 0)
    (hroom : policy.cap ≤ e.stillValid now policy) :
    ¬ (e.mint token now policy).1.Remembers policy now
      (supersedeLast now history ++ [e.minted token now policy]) := by
  have hp := hs.pushed now hf
  have hrec := hr.pushed token now policy
  have hlen : (supersedeLast now e.gens).length ≤ policy.cap := by
    rwa [length_supersedeLast]
  have hfull : e.stillValid now policy = (supersedeLast now e.gens).length :=
    le_antisymm List.countP_le_length (hlen.trans hroom)
  have hvalid : ∀ g ∈ supersedeLast now e.gens, now < g.resourceValidUntil policy.graceSecs := by
    simpa using List.countP_eq_length.1 hfull
  set p := e.pushed token now policy with hpdef
  have hpgens : p.gens = supersedeLast now e.gens ++ [e.minted token now policy] := rfl
  -- nothing lapsed, so the cap alone pushes out the oldest
  have hkeep : ∀ g ∈ p.gens, p.lapsed now policy g = false := by
    intro g hg
    rw [hpgens, List.mem_append, List.mem_singleton] at hg
    rcases hg with hg | rfl
    · simp [lapsed, hvalid g hg]
    · simp [lapsed, hpdef, SessionEntry.pushed, minted]
  have hkept : p.kept now policy = p.gens := by
    rw [kept, List.filter_eq_self]
    intro g hg
    rw [hkeep g hg]
    rfl
  have hlapsed : p.gens.filter (p.lapsed now policy) = [] := by
    rw [List.filter_eq_nil_iff]
    intro g hg
    simp [hkeep g hg]
  have hcap0 := policy.cap_pos
  obtain ⟨x, xs, hx⟩ := List.exists_cons_of_length_pos (l := supersedeLast now e.gens) (by omega)
  have hover : overflow policy.cap p.gens = [x] := by
    have hl : p.gens.length - policy.cap = 1 := by
      rw [hpgens, List.length_append, List.length_singleton]
      omega
    rw [overflow, hl, hpgens, hx]
    rfl
  have hmint : (e.mint token now policy).1.retired =
      keepLast policy.retiredMemory (p.retired ++ [x.key]) := by
    show (p.reapGenerations now policy).1.retired = _
    rw [reapGenerations_eq p now policy hp.memory, dropped, hkept, hlapsed, hover]
    rfl
  have hgens : (e.mint token now policy).1.gens = xs ++ [e.minted token now policy] := by
    show (p.reapGenerations now policy).1.gens = _
    have hsplit := overflow_append_keepLast policy.cap p.gens
    rw [hover, hpgens, hx, List.singleton_append, List.cons_append] at hsplit
    rw [reap_gens hp.memory, hkept, hpgens, hx]
    exact (List.cons.inj hsplit).2
  intro hrem
  have hxmem : x ∈ p.gens := by
    rw [hpgens, hx]
    exact List.mem_append_left _ List.mem_cons_self
  have hxheld : x.tokenHash ∈ (e.mint token now policy).1.allHashes := by
    refine List.mem_append_right _ (List.mem_map.2 ⟨x.key, ?_, rfl⟩)
    rw [hmint, keepLast_concat (Nat.pos_of_ne_zero hm)]
    exact List.mem_append_right _ (List.mem_singleton_self _)
  rcases hrem x (hrec.sublist.subset hxmem) hxheld with hin | hv
  · have hnd : (p.gens.map (·.tokenHash)).Nodup := hp.gens_nodup
    rw [hpgens, hx, List.cons_append, List.map_cons, List.nodup_cons] at hnd
    rw [hgens] at hin
    exact hnd.1 (List.mem_map_of_mem hin)
  · refine absurd (hvalid x ?_) (not_lt.2 hv)
    rw [hx]
    exact List.mem_cons_self

end

end SessionEntry

/-! ## Every session -/

/-- The call declares no custody dead. -/
def Op.Healthy : Op → Prop
  | .setCustodyStatus _ _ status => status ≠ .dead
  | _ => True

namespace SessionMap

/-- Should the call mint, then what the cap pushes out could not authenticate
    any more, or is not remembered, or the session is over at once. -/
def Spares (m : SessionMap) : Op → Prop
  | .refresh hash _ now => ∀ sid e, m.index hash = some sid → m.sessions sid = some e →
      e.Rotates hash now m.policy →
      m.policy.retiredMemory = 0 ∨ e.stillValid now m.policy < m.policy.cap ∨
      min (now.plusSecs m.policy.idleTtlSecs) e.absoluteExp ≤ now
  | _ => True

structure Spent (now : Timestamp) (m : SessionMap) : Prop where
  healthy : ∀ sid e, m.sessions sid = some e → e.custodyStatus ≠ .dead
  spent : ∀ sid e, m.sessions sid = some e →
    e.idleExp ≤ now ∨ e.Remembers m.policy now (m.history sid)
  gone : ∀ sid row, m.row sid = some row → m.sessions sid = none →
    row.status = .tombstoned ∨ row.idleExp ≤ now

theorem spent_withDurability (policy : SessionPolicy) (now : Timestamp) :
    (withDurability policy).Spent now :=
  ⟨(fun _ _ h => by cases h), (fun _ _ h => by cases h), fun sid _ hr => by simp [row, withDurability] at hr⟩

theorem Spent.mono {m : SessionMap} {now now' : Timestamp} (h : m.Spent now) (ht : now ≤ now') :
    m.Spent now' :=
  ⟨h.healthy, fun sid e he => (h.spent sid e he).imp (·.trans ht) fun hr => hr.mono ht,
    fun sid row hr hs => (h.gone sid row hr hs).imp_right (·.trans ht)⟩

/-- A move that leaves the other sessions as they are. -/
theorem Spent.change {m m' : SessionMap} {now : Timestamp} {sid : Sid} {e' : SessionEntry}
    (h : m.Spent now) (hm : m'.sessions = Function.update m.sessions sid (some e')) (hp : m'.policy = m.policy)
    (hh : ∀ s, s ≠ sid → m'.history s = m.history s) (hrow : ∀ s, s ≠ sid → m'.row s = m.row s)
    (hc : e'.custodyStatus ≠ .dead)
    (hs : e'.idleExp ≤ now ∨ e'.Remembers m.policy now (m'.history sid)) : m'.Spent now := by
  refine ⟨?_, fun s e he => ?_, fun s row hr hn => ?_⟩
  · rw [hm]
    exact forall_update h.healthy (by rintro _ ⟨⟩; exact hc)
  · rw [hm, Function.update_apply] at he
    rw [hp]
    split_ifs at he with hx
    · cases he
      subst hx
      exact hs
    · rw [hh s hx]
      exact h.spent s e he
  · rw [hm, Function.update_apply] at hn
    split_ifs at hn with hx
    exact h.gone s row (hrow s hx ▸ hr) hn

/-- **One move** of a call that spares what could still authenticate. -/
theorem Spent.move {policy : SessionPolicy} {custody : List CustodyRow} {op : Op}
    {m m' : SessionMap} {now : Timestamp} (hk : m.Kept policy) (htr : m.Tracked now)
    (hsy : InSync custody m) (h : m.Spent now) (hhealthy : op.Healthy) (hspare : m.Spares op)
    (hop : ∀ u, op.now = some u → u = now) (hm : Move op m m') : m'.Spent now := by
  cases hm with
  | @create _ sid custody sub token u hh hs =>
    obtain rfl := hop u rfl
    have hnil : m.history sid = [] := by
      rw [← List.length_eq_zero_iff, length_history]
      exact not_not.1 fun hn => hs (Or.inr (hk.counted.generations sid hn))
    refine h.change (create_sessions ..) rfl (fun s hx => ?_)
      (fun s hx => row_create_of_ne _ _ _ _ _ _ _ (Ne.symm hx)) (fun h => by cases h)
      (Or.inr fun g hg _ => ?_)
    · rw [history_create, if_neg (Ne.symm hx), List.append_nil]
    · rw [history_create, hnil, if_pos rfl, List.nil_append] at hg
      exact Or.inl hg
  | @refresh _ hash token u sid e e' cookies effects hh hi he hr =>
    obtain rfl := hop u rfl
    have hs := hk.wf.sound sid e he
    have hrec := htr.recorded sid e he
    have hlive : u < e.idleExp := (SessionEntry.sessionExpiry_eq_none.1
      (SessionEntry.mem_of_refreshable (SessionEntry.refresh_cases hr).1).1).2.2.1
    have hrem : e.Remembers m.policy u (m.history sid) :=
      (h.spent sid e he).resolve_left (not_le.2 hlive)
    have hnew : token.hash ∉ e.allHashes := fun hx => by
      rw [← hk.wf.index.mem he] at hx
      exact hh (Or.inl (by rw [hx]; exact Option.some_ne_none sid))
    have hnd : ((m.history sid).map (·.tokenHash)).Nodup := by
      rw [map_hash_history]
      exact hk.killings.issued.sublist (issuedTo_sublist m sid)
    have hfh : token.hash ∉ (m.history sid).map (·.tokenHash) := by
      rw [map_hash_history]
      exact fun hx => hh (Or.inr ((issuedTo_sublist m sid).subset hx))
    have hrow : ∀ s, s ≠ sid → (m.commit sid e' effects).row s = m.row s := fun s hx => by
      rw [row_commit, if_neg (Ne.symm hx)]
    have hcus : e'.custodyStatus ≠ .dead := by
      obtain ⟨_, _, _, _, _, rfl⟩ := SessionEntry.refresh_frame hr
      exact h.healthy sid e he
    obtain ⟨hother, hmine⟩ := history_refresh hk.wf hk.killings hh he hrec hr
    have hmine' : e'.idleExp ≤ u ∨
        e'.Remembers m.policy u ((m.commit sid e' effects).history sid) := by
      rcases hmine with ⟨rfl, hmine⟩ | ⟨hrot, rfl, hmine⟩
      · rw [hmine]
        exact Or.inr hrem
      · rw [hmine]
        rcases hspare sid e hi he hrot with hx | hx | hx
        · exact Or.inr (hrem.mint hs hnew (htr.chronicle sid) hnd hfh hrec (Or.inl hx))
        · exact Or.inr (hrem.mint hs hnew (htr.chronicle sid) hnd hfh hrec (Or.inr hx))
        · left
          refine le_of_eq_of_le ?_ hx
          show min _ (e.mint token u m.policy).1.absoluteExp = _
          rw [show (e.mint token u m.policy).1.absoluteExp = e.absoluteExp from
            SessionEntry.reap_absoluteExp ..]
    exact h.change (commit_sessions ..) (commit_policy ..) hother hrow hcus hmine'
  | @kill _ op sid e u reason hkill he ha =>
    refine h.change (kill_sessions ..) rfl (fun s _ => history_kill ..)
      (fun s hx => by rw [row_kill, if_neg (Ne.symm hx)]) (h.healthy sid e he) ?_
    rw [history_kill]
    exact h.spent sid e he
  | @touch _ order custody status sid e he hc =>
    exact h.change rfl rfl (fun _ _ => rfl) (fun _ _ => rfl) hhealthy (h.spent sid e he)
  | announce => exact ⟨h.healthy, h.spent, h.gone⟩
  | @reap _ order u sid e he =>
    obtain rfl := hop u rfl
    have hs := hk.wf.sound sid e he
    refine h.change (reap_sessions ..) (reap_policy ..) (fun s _ => history_reap ..)
      (fun s _ => row_reap ..) ?_ ?_
    · rw [SessionEntry.reap_custodyStatus]
      exact h.healthy sid e he
    · rw [SessionEntry.reap_idleExp, history_reap]
      refine (h.spent sid e he).imp_right fun hr => hr.reap hs ?_
      exact SessionEntry.dropped_lapsed (hk.capped sid e he)
  | @remove _ order u sid e he hcol =>
    obtain rfl := hop u rfl
    refine ⟨?_, ?_, fun s row hr hn => ?_⟩
    · rw [forget_sessions]
      exact forall_update h.healthy (fun _ h => by cases h)
    · simp only [forget_sessions, forget_policy, history_forget]
      exact forall_update h.spent (fun _ h => by cases h)
    · rw [row_forget] at hr
      by_cases hx : s = sid
      · -- only a session that is over is collected
        subst hx
        obtain ⟨row', hr', hmir⟩ := hsy.row hk.wf he
        rw [hr] at hr'
        cases hr'
        have hover := SessionEntry.expired_of_collectible hcol
        rw [hmir.status, hmir.idleExp]
        by_contra hno
        rw [not_or, not_le] at hno
        refine hover (SessionEntry.sessionExpiry_eq_none.2 ⟨?_, ?_, hno.2, ?_⟩)
        · cases hst : e.status with
          | alive => rfl
          | tombstoned => exact absurd hst hno.1
        · exact hno.2.trans_le (hk.wf.sound s e he).idle
        · exact fun hd => h.healthy s e he hd.1
      · rw [forget_sessions, Function.update_of_ne hx] at hn
        exact h.gone s row hr hn

/-- Every call of the run spares what could still authenticate. -/
def SparesAll (policy : SessionPolicy) (ops : List Op) : Prop :=
  ∀ before op later, ops = before ++ op :: later → (runs policy before).Spares op

theorem SparesAll.of_append {policy : SessionPolicy} {ops ops' : List Op}
    (h : SparesAll policy (ops ++ ops')) : SparesAll policy ops := by
  rintro before op later rfl
  exact h before op (later ++ ops') (by simp)

/-- The invariants that a run keeps. -/
structure Followed (policy : SessionPolicy) (custody : List CustodyRow) (now : Timestamp)
    (m : SessionMap) : Prop where
  kept : m.Kept policy
  tracked : m.Tracked now
  inSync : InSync custody m
  spent : m.Spent now

theorem Followed.move {policy : SessionPolicy} {custody : List CustodyRow} {op : Op}
    {m m' : SessionMap} {now : Timestamp} (h : m.Followed policy custody now)
    (hc : op.CustodyOnFile custody) (hh : op.Healthy) (hs : m.Spares op)
    (hop : ∀ u, op.now = some u → u = now) (hm : Move op m m') : m'.Followed policy custody now :=
  ⟨h.kept.move hm, h.tracked.move h.kept hop hm,
    h.inSync.move h.kept.wf h.kept.counted hc hm,
    h.spent.move h.kept h.tracked h.inSync hh hs hop hm⟩

theorem spent_run (policy : SessionPolicy) {custody : List CustodyRow} {ops : List Op}
    (hf : Fresh ops) (hn : Nondecreasing Op.now ops) (hc : ∀ op ∈ ops, op.CustodyOnFile custody)
    (hh : ∀ op ∈ ops, op.Healthy) (hs : SparesAll policy ops) {now : Timestamp}
    (ht : NotBefore Op.now ops now) : (runs policy ops).Followed policy custody now := by
  refine timed_invariant
    (fun ops => Fresh ops ∧ (∀ op ∈ ops, op.CustodyOnFile custody) ∧ (∀ op ∈ ops, op.Healthy) ∧
      SparesAll policy ops)
    (fun _ t (m : SessionMap) => m.Followed policy custody t) (fun as a h => ?_) (fun t => ?_)
    (fun as t t' m htt h => ?_) (fun as op t h hop hi => ?_) ops ⟨hf, hc, hh, hs⟩ hn now ht
  · exact ⟨h.1.of_append, fun op ho => h.2.1 op (List.mem_append_left _ ho),
      fun op ho => h.2.2.1 op (List.mem_append_left _ ho), h.2.2.2.of_append⟩
  · exact ⟨kept_withDurability policy, tracked_withDurability policy t,
      inSync_withDurability custody policy, spent_withDurability policy t⟩
  · exact ⟨h.kept, h.tracked.mono htt, h.inSync, h.spent.mono htt⟩
  · obtain ⟨hf, hc, hh, hs⟩ := h
    have hfresh := (hf.from policy).freshIn
    have hc : op.CustodyOnFile custody := hc op (List.mem_append_right _ (List.mem_singleton_self op))
    have hh : op.Healthy := hh op (List.mem_append_right _ (List.mem_singleton_self op))
    have hs : (run step (withDurability policy) as).Spares op := hs as op [] rfl
    have hmoves := step_moves hfresh
    cases op with
    | refresh hash token now =>
      -- the one call with a condition is a single move
      rcases step_refresh (run step (withDurability policy) as) hash token now with
        hx | ⟨sid, e, e', cookies, effects, hidx, he, hr, hx⟩
      · rw [hx]
        exact hi
      · rw [hx]
        exact hi.move hc hh hs hop (.refresh (hfresh.1 _ rfl) hidx he hr)
    | _ =>
      exact moves_invariant (Followed policy custody t) (fun m m' hm hmove =>
        hm.move hc hh trivial hop hmove) hmoves hi

/-! ## Restarting -/

/-- After a restart nothing authenticates that did not before, and no session
    has more cookies that do than the cap allows. -/
def RestartSafe (policy : SessionPolicy) (custody : List CustodyRow) (ops : List Op) : Prop :=
  ∃ t, (Tables.fresh custody).applyAll (runs policy ops).queue = some t ∧
    ∀ u, NotBefore Op.now ops u →
      (∀ hash, ((runs policy ops).resolve hash u).authenticates = false →
        ((restart policy t).resolve hash u).authenticates = false) ∧
      ∀ sid (hashes : List TokenHash), hashes.Nodup →
        (∀ hash ∈ hashes, ∃ genNo newest,
          (restart policy t).resolve hash u = .active sid genNo newest) →
        hashes.length ≤ max policy.maxLiveGens 1

/-- What authenticates after the restart is a generation of the same session
    before it. -/
theorem Followed.restarted {policy : SessionPolicy} {custody : List CustodyRow} {m : SessionMap}
    {u : Timestamp} (h : m.Followed policy custody u) {t : Tables}
    (ha : (Tables.fresh custody).applyAll m.queue = some t) (hs : Synced m t) {sid : Sid}
    {e' : SessionEntry} (he' : (restart policy t).sessions sid = some e')
    (hx : e'.sessionExpiry u policy = none) {g : Generation} (hg : g ∈ e'.gens)
    (hv : u < g.resourceValidUntil policy.graceSecs) :
    ∃ e, m.sessions sid = some e ∧ e.sessionExpiry u policy = none ∧ g ∈ e.gens := by
  obtain ⟨r, hr, rfl, hra, -, rfl⟩ := (Tables.restart_sessions hs.keyed policy).1 he'
  obtain ⟨-, habs, hidle, -⟩ := SessionEntry.sessionExpiry_eq_none.1 hx
  have hrow := hs.keyed.rowOf_eq hr
  rw [Tables.rowOf_applyAll _ ha] at hrow
  cases he : m.sessions r.row.sid with
  | none =>
    rcases h.spent.gone _ _ hrow he with hd | hd
    · rw [hra] at hd
      cases hd
    · exact absurd hidle (not_lt.2 hd)
  | some e =>
    obtain ⟨r', hr', hm, hb⟩ := hs.entry _ e he
    have hrr : r' = r := List.inj_on_of_nodup_map hs.keyed.session hr' hr
      (hm.sid.trans (h.kept.wf.own _ e he))
    subst hrr
    have hmem : g ∈ t.gensOf r'.row.sid := Tables.mem_bootGens.1 hg
    have hhist : g ∈ m.history r'.row.sid :=
      (Tables.gensOf_applyAll ha (List.Sublist.refl [])).subset hmem
    have hheld : g.tokenHash ∈ e.allHashes := hb.hashes.subset (List.mem_map_of_mem hmem)
    refine ⟨e, rfl, SessionEntry.sessionExpiry_eq_none.2
      ⟨hm.status.symm.trans hra, hm.absoluteExp ▸ habs, hm.idleExp ▸ hidle,
        fun hd => h.spent.healthy _ e he hd.1⟩, ?_⟩
    rcases h.spent.spent _ e he with hi | hrem
    · have hend : r'.row.idleExp ≤ u := hm.idleExp ▸ hi
      exact absurd hidle (not_lt.2 hend)
    · rcases hrem g hhist hheld with hin | hend
      · exact hin
      · exact absurd hv (not_lt.2 (h.kept.policy ▸ hend))

theorem restartSafe_of_spares {policy : SessionPolicy} {custody : List CustodyRow} {ops : List Op}
    (hf : Fresh ops) (hn : Nondecreasing Op.now ops) (hc : ∀ op ∈ ops, op.CustodyOnFile custody)
    (hh : ∀ op ∈ ops, op.Healthy) (hs : SparesAll policy ops) : RestartSafe policy custody ops := by
  obtain ⟨t, ha, -, hsync⟩ := synced_run policy hf hc
  have hheld := Tables.restart_holds hsync.keyed policy
  have hnodup := hsync.keyed.restart_nodup policy
  refine ⟨t, ha, fun u hu => ?_⟩
  have hfol := spent_run policy hf hn hc hh hs hu
  constructor
  · intro hash hstop
    rw [Bool.eq_false_iff]
    intro hauth
    obtain ⟨sid, e', he', hx, g, hg, hgh, hv⟩ := (hheld.index.resolve_authenticates hnodup).1 hauth
    rw [hheld.policy] at hx hv
    obtain ⟨e, he, hx', hg'⟩ := hfol.restarted ha hsync he' hx hg hv
    have hold : ((runs policy ops).resolve hash u).authenticates = true := by
      rw [hfol.kept.wf.index.resolve_authenticates fun s e he =>
        (hfol.kept.wf.sound s e he).gens_nodup, hfol.kept.policy]
      exact ⟨sid, e, he, hx', g, hg', hgh, hv⟩
    rw [hstop] at hold
    cases hold
  · intro sid hashes hnd hact
    cases hashes with
    | nil => exact Nat.zero_le _
    | cons hash₀ hashes =>
      -- every one of them is a generation of the session's entry
      have hown : ∀ hash ∈ hash₀ :: hashes, ∃ e, (runs policy ops).sessions sid = some e ∧
          hash ∈ e.gens.map (·.tokenHash) := by
        intro hash hmem
        obtain ⟨genNo, newest, hres⟩ := hact hash hmem
        have hauth : ((restart policy t).resolve hash u).authenticates = true := by
          rw [hres]
          rfl
        obtain ⟨sid', e', he', hx, g, hg, hgh, hv⟩ :=
          (hheld.index.resolve_authenticates hnodup).1 hauth
        have hcl := hheld.index.resolve he'
          (List.mem_append_left _ (List.mem_map_of_mem hg)) (t := u)
        rw [hgh, hres, ← hgh, SessionEntry.classify_of_mem (hnodup sid' e' he') hx hg,
          if_pos hv] at hcl
        obtain ⟨r, -, hrs, -, -, rfl⟩ := (Tables.restart_sessions hsync.keyed policy).1 he'
        have hsid : sid = sid' := by
          injection hcl with h₁
          rw [h₁, ← hrs]
          rfl
        subst hsid
        rw [hheld.policy] at hx hv
        obtain ⟨e, he, -, hg'⟩ := hfol.restarted ha hsync he' hx hg hv
        exact ⟨e, he, List.mem_map.2 ⟨g, hg', hgh⟩⟩
      obtain ⟨e, he, -⟩ := hown hash₀ List.mem_cons_self
      have hsub : hash₀ :: hashes ⊆ e.gens.map (·.tokenHash) := by
        intro hash hmem
        obtain ⟨e₁, he₁, hin⟩ := hown hash hmem
        rw [he] at he₁
        cases he₁
        exact hin
      have hcap := hfol.kept.capped sid e he
      rw [hfol.kept.policy] at hcap
      calc (hash₀ :: hashes).length ≤ (e.gens.map (·.tokenHash)).length :=
            (List.subperm_of_subset hnd hsub).length_le
        _ = e.gens.length := List.length_map _
        _ ≤ max policy.maxLiveGens 1 := hcap

/-- A safe restart finds in the table only what could not authenticate. -/
theorem RestartSafe.remembers {policy : SessionPolicy} {custody : List CustodyRow} {ops : List Op}
    (h : RestartSafe policy custody ops) (hf : Fresh ops) (hn : Nondecreasing Op.now ops)
    (hc : ∀ op ∈ ops, op.CustodyOnFile custody) {u : Timestamp} (hu : NotBefore Op.now ops u)
    {sid : Sid} {e : SessionEntry} (he : (runs policy ops).sessions sid = some e)
    (hx : e.sessionExpiry u policy = none) :
    e.Remembers policy u ((runs policy ops).history sid) := by
  obtain ⟨t, ha, hsafe⟩ := h
  obtain ⟨t', ha', -, hs⟩ := synced_run policy hf hc
  obtain rfl : t = t' := Option.some.inj (ha.symm.trans ha')
  have hk := kept_run policy hf
  have hheld := Tables.restart_holds hs.keyed policy
  intro g hg hh
  by_contra hno
  rw [not_or, not_le] at hno
  obtain ⟨hout, hv⟩ := hno
  obtain ⟨halive, habs, hidle, -⟩ := SessionEntry.sessionExpiry_eq_none.1 hx
  obtain ⟨e', he', -, -, hid', habs', halive', hok, hgens, -⟩ := hs.restart hk.wf he halive
  rw [hk.policy] at he'
  have hnd : (((runs policy ops).history sid).map (·.tokenHash)).Nodup := by
    rw [map_hash_history]
    exact hk.killings.issued.sublist (issuedTo_sublist ..)
  -- the table holds the generation itself
  have hstored : g ∈ t.gensOf sid := by
    obtain ⟨r, hr, hm, hb⟩ := hs.entry sid e he
    obtain ⟨g', hg', hgg⟩ := List.mem_map.1 (hb.hashes.mem_iff.2 hh)
    have hhist : g' ∈ (runs policy ops).history sid :=
      (Tables.gensOf_applyAll ha (List.Sublist.refl [])).subset hg'
    rwa [← List.inj_on_of_nodup_map hnd hhist hg hgg]
  have hnew : ((restart policy t).resolve g.tokenHash u).authenticates = true := by
    rw [hheld.index.resolve_authenticates (hs.keyed.restart_nodup policy), hheld.policy]
    refine ⟨sid, e', he', ?_, g, (hgens g).2 hstored, rfl, hv⟩
    rw [SessionEntry.sessionExpiry_eq_none, hid', habs', hok]
    exact ⟨halive', habs, hidle, fun h => by cases h.1⟩
  have hold : ((runs policy ops).resolve g.tokenHash u).authenticates = false := by
    rw [Bool.eq_false_iff]
    intro hauth
    obtain ⟨sid', e₁, he₁, -, g', hg', hgg, -⟩ :=
      (hk.wf.index.resolve_authenticates fun s e he => (hk.wf.sound s e he).gens_nodup).1 hauth
    have hto : g'.tokenHash ∈ (runs policy ops).issuedTo sid := by
      rw [hgg, ← map_hash_history]
      exact List.mem_map_of_mem hg
    have hi := (hk.wf.index.mem he₁).2 (List.mem_append_left _ (List.mem_map_of_mem hg'))
    obtain rfl := hk.killings.owner sid _ hto sid' hi
    rw [he] at he₁
    cases he₁
    have hrec := (tracked_run policy hf hn hu).recorded _ e he
    rw [List.inj_on_of_nodup_map hnd (hrec.sublist.subset hg') hg hgg] at hg'
    exact hout hg'
  have := (hsafe u hu).1 g.tokenHash hold
  rw [hnew] at this
  cases this

/-- A safe restart after a call: the call spared what could still authenticate. -/
theorem RestartSafe.spares {policy : SessionPolicy} {custody : List CustodyRow}
    {before : List Op} {op : Op} (h : RestartSafe policy custody (before ++ [op]))
    (hf : Fresh (before ++ [op])) (hn : Nondecreasing Op.now (before ++ [op]))
    (hc : ∀ o ∈ before ++ [op], o.CustodyOnFile custody) : (runs policy before).Spares op := by
  cases op with
  | refresh hash token now =>
    intro sid e hi he hrot
    have hk := kept_run policy hf.of_append
    have hfresh : ¬ (runs policy before).Knows token.hash :=
      ((hf.from policy).freshIn).1 _ rfl
    have hnow : NotBefore Op.now before now := hn.notBefore rfl
    have hs := hk.wf.sound sid e he
    have hrec := (tracked_run policy hf.of_append hn.of_append hnow).recorded sid e he
    have hnew : token.hash ∉ e.allHashes := fun hx => by
      rw [← hk.wf.index.mem he] at hx
      exact hfresh (Or.inl (by rw [hx]; exact Option.some_ne_none sid))
    obtain ⟨cookies, hr⟩ := SessionEntry.refresh_of_rotates token hrot
    have hstep : runs policy (before ++ [.refresh hash token now]) =
        (runs policy before).commit sid
          ((e.mint token now (runs policy before).policy).1.slide now (runs policy before).policy)
          (e.mint token now (runs policy before).policy).2 := by
      simp only [runs, run_concat] at hi he hr ⊢
      simp [step, call, SessionMap.refresh, hi, he, hr, commit]
    rw [hk.policy] at hrot hr hstep ⊢
    set e' := (e.mint token now policy).1.slide now policy with he'
    have habs' : e'.absoluteExp = e.absoluteExp := SessionEntry.reap_absoluteExp ..
    by_contra hno
    rw [not_or, not_or, not_lt, not_le] at hno
    obtain ⟨hm, hroom, hlive⟩ := hno
    obtain ⟨halive, habs, -, hdead⟩ := SessionEntry.sessionExpiry_eq_none.1
      (SessionEntry.mem_of_refreshable hrot.1).1
    have hmine : (runs policy (before ++ [.refresh hash token now])).sessions sid = some e' := by
      rw [hstep, commit_sessions, Function.update_self]
    have hx : e'.sessionExpiry now policy = none := by
      rw [SessionEntry.sessionExpiry_eq_none]
      refine ⟨?_, habs'.symm ▸ habs, ?_, ?_⟩
      · rw [SessionEntry.refresh_status hr]
        exact halive
      · show now < min _ (e.mint token now policy).1.absoluteExp
        rw [show (e.mint token now policy).1.absoluteExp = e.absoluteExp from
          SessionEntry.reap_absoluteExp ..]
        exact hlive
      · obtain ⟨_, _, _, _, _, hframe⟩ := SessionEntry.refresh_frame hr
        rw [hframe]
        exact hdead
    have hlast : NotBefore Op.now (before ++ [.refresh hash token now]) now := by
      intro v hv
      rw [List.filterMap_append, List.mem_append] at hv
      rcases hv with hv | hv
      · exact hnow v hv
      · have hvn : v = now := by simpa [Op.now] using hv
        exact hvn.le
    have hrem := h.remembers hf hn hc hlast hmine hx
    have hcap := hk.capped sid e he
    rw [hk.policy] at hs hcap
    refine SessionEntry.not_remembers_mint hs hnew hrec hcap hm hroom ?_
    have hhist := history_mint hk.killings hfresh hrec e' now
    rw [hk.policy] at hhist
    rw [hstep, hhist] at hrem
    exact hrem
  | _ => trivial

/-- **Restarts are safe all along a run** exactly if each of its calls spares
    what could still authenticate. -/
theorem restart_safe_iff (policy : SessionPolicy) (custody : List CustodyRow) (ops : List Op)
    (hf : Fresh ops) (hn : Nondecreasing Op.now ops) (hc : ∀ op ∈ ops, op.CustodyOnFile custody)
    (hh : ∀ op ∈ ops, op.Healthy) :
    (∀ before later, ops = before ++ later → RestartSafe policy custody before) ↔
      ∀ before op later, ops = before ++ op :: later → (runs policy before).Spares op := by
  have hpre : ∀ before later, ops = before ++ later → Fresh before ∧
      Nondecreasing Op.now before ∧ (∀ op ∈ before, op.CustodyOnFile custody) ∧
      ∀ op ∈ before, op.Healthy := by
    rintro before later rfl
    exact ⟨hf.of_append, hn.of_append, fun op ho => hc op (List.mem_append_left _ ho),
      fun op ho => hh op (List.mem_append_left _ ho)⟩
  constructor
  · rintro h before op later rfl
    have hcut : before ++ op :: later = (before ++ [op]) ++ later := by simp
    obtain ⟨hf', hn', hc', -⟩ := hpre (before ++ [op]) later hcut
    exact (h (before ++ [op]) later hcut).spares hf' hn' hc'
  · intro h before later hops
    obtain ⟨hf', hn', hc', hh'⟩ := hpre before later hops
    refine restartSafe_of_spares hf' hn' hc' hh' fun before' op later' hb => ?_
    exact h before' op (later' ++ later) (by rw [hops, hb]; simp)

/-- A replaced cookie that the cap pushed out comes back with the restart. -/
theorem restart_resurrects :
    let policy : SessionPolicy := { maxLiveGens := 1, coalesceSecs := 0 }
    let ops := [Op.create ⟨"s"⟩ ⟨"c"⟩ "alice" .sample1 ⟨0⟩,
      .refresh SessionToken.sample1.hash .sample2 ⟨1⟩]
    Fresh ops ∧ Nondecreasing Op.now ops ∧ (∀ op ∈ ops, op.CustodyOnFile [⟨⟨"c"⟩, "p"⟩]) ∧
      (∀ op ∈ ops, op.Healthy) ∧ ¬ RestartSafe policy [⟨⟨"c"⟩, "p"⟩] ops := by
  intro policy ops
  refine ⟨by decide, by decide, by simp [ops, Op.CustodyOnFile], by simp [ops, Op.Healthy], ?_⟩
  rintro ⟨t, ha, h⟩
  have hold : ((runs policy ops).resolve SessionToken.sample1.hash ⟨1⟩).authenticates = false := by
    decide
  have hnew := (h ⟨1⟩ (by decide)).1 _ hold
  have hback : ((Tables.fresh [⟨⟨"c"⟩, "p"⟩]).applyAll (runs policy ops).queue).map (fun t =>
      ((restart policy t).resolve SessionToken.sample1.hash ⟨1⟩).authenticates) = some true := by
    decide
  rw [ha, Option.map_some, hnew] at hback
  cases hback

/-- At a concrete run: with room for the replaced cookie restarts are safe. -/
theorem restart_safe_iff_roomy :
    RestartSafe {} [⟨⟨"c"⟩, "p"⟩] [.create ⟨"s"⟩ ⟨"c"⟩ "alice" .sample1 ⟨0⟩,
      .refresh SessionToken.sample1.hash .sample2 ⟨100⟩] := by
  refine (restart_safe_iff {} [⟨⟨"c"⟩, "p"⟩] _ (by decide) (by decide)
    (by simp [Op.CustodyOnFile]) (by simp [Op.Healthy])).2 ?_ _ [] (List.append_nil _).symm
  intro before op later hops
  rcases before with _ | ⟨_, _ | ⟨_, before⟩⟩
  · cases hops
    trivial
  · cases hops
    intro sid e hi he _
    have hroom : ∀ sid ∈ (runs {} [.create ⟨"s"⟩ ⟨"c"⟩ "alice" .sample1 ⟨0⟩]).index
        SessionToken.sample1.hash, ∀ e ∈ (runs {} [.create ⟨"s"⟩ ⟨"c"⟩ "alice" .sample1
        ⟨0⟩]).sessions sid, e.stillValid ⟨100⟩ {} < 4 := by decide
    exact Or.inr (Or.inl (hroom sid hi e he))
  · have hlen := congrArg List.length hops
    simp only [List.length_cons, List.length_nil, List.length_append] at hlen
    omega

end SessionMap

end SessionBroker
