/-
  A killed session stays dead.

  * `Killings`: what the events announced as killed is what the writer was told
    to tombstone, once each, and a killed session that is still in the map is
    tombstoned; a hash issued for a session is never indexed to another;
  * `Tables.Dead`: a tombstoned row stays so under every batch of session
    commands;
  * `killed_stays_dead` and `kill_reported`.
-/
import SessionBroker.Rehydrate
import SessionBroker.Lib.Transaction

namespace SessionBroker

open Relation Runs

/-! ## What was killed and what was issued -/

/-- The session an event reports as killed. -/
def SessionEvent.kills : SessionEvent → Option Sid
  | sessionKilled sid _ => some sid
  | custodyChanged .. => none

/-- The session a command tombstones. -/
def SessionCommand.tombstones : SessionCommand → Option Sid
  | tombstoneSession sid _ => some sid
  | _ => none

/-- The hash a command inserts for the session `sid`. -/
def SessionCommand.issuesTo (sid : Sid) : SessionCommand → Option TokenHash
  | insertGeneration sid' _ hash _ _ => if sid' = sid then some hash else none
  | _ => none

namespace SessionMap

/-- The sessions reported as killed, in order. -/
def killed (m : SessionMap) : List Sid := m.events.filterMap SessionEvent.kills

/-- The sessions the writer was told to tombstone, in order. -/
def tombstoned (m : SessionMap) : List Sid := m.queue.filterMap SessionCommand.tombstones

/-- The hashes ever issued for a session. -/
def issuedTo (m : SessionMap) (sid : Sid) : List TokenHash :=
  m.queue.filterMap (SessionCommand.issuesTo sid)

theorem issuedTo_sublist (m : SessionMap) (sid : Sid) : (m.issuedTo sid).Sublist m.issued := by
  obtain ⟨policy, sessions, index, queue, events⟩ := m
  simp only [issuedTo, issued]
  induction queue with
  | nil => exact List.Sublist.refl _
  | cons c queue ih =>
    cases c with
    | insertGeneration sid' genNo hash createdAt activeUntil =>
      by_cases hs : sid' = sid
      · simpa [List.filterMap_cons, SessionCommand.issuesTo, SessionCommand.issues, hs] using ih
      · simpa [List.filterMap_cons, SessionCommand.issuesTo, SessionCommand.issues, hs] using
          ih.cons hash
    | _ => simpa [List.filterMap_cons, SessionCommand.issuesTo, SessionCommand.issues] using ih

@[simp] theorem filterMap_tombstones_new (e : SessionEntry) (now : Timestamp) :
    (newCommands e now).filterMap SessionCommand.tombstones = [] := by
  simp [newCommands, SessionCommand.tombstones]

@[simp] theorem filterMap_tombstones_commands (effects : IndexEffects) (sid : Sid) :
    (effects.commands sid).filterMap SessionCommand.tombstones = [] := by
  obtain ⟨added, superseded, purged⟩ := effects
  cases added <;> cases superseded <;> simp [IndexEffects.commands, SessionCommand.tombstones]

@[simp] theorem filterMap_issuesTo_new (sid : Sid) (e : SessionEntry) (now : Timestamp) :
    (newCommands e now).filterMap (SessionCommand.issuesTo sid) =
      if e.sid = sid then e.gens.map (·.tokenHash) else [] := by
  split_ifs with hs <;>
    simp [newCommands, SessionCommand.issuesTo, List.filterMap_cons, List.filterMap_map,
      Function.comp_def, hs]

@[simp] theorem filterMap_issuesTo_commands (sid : Sid) (effects : IndexEffects) (sid' : Sid) :
    (effects.commands sid').filterMap (SessionCommand.issuesTo sid) =
      if sid' = sid then effects.added.toList.map (·.tokenHash) else [] := by
  obtain ⟨added, superseded, purged⟩ := effects
  split_ifs with hs <;> cases added <;> cases superseded <;>
    simp [IndexEffects.commands, SessionCommand.issuesTo, hs]

end SessionMap

/-- A move only appends to the kills. -/
theorem Move.killed {op : Op} {m m' : SessionMap} (h : Move op m m') :
    m.killed <+: m'.killed := by
  cases h <;> simp [SessionMap.killed]

namespace SessionMap

/-! ## The invariant -/

structure Killings (m : SessionMap) : Prop where
  same : m.tombstoned = m.killed
  nodup : m.killed.Nodup
  created : ∀ sid ∈ m.killed, sid ∈ m.created
  entry : ∀ sid e, m.sessions sid = some e → sid ∈ m.killed → e.status = .tombstoned
  issued : m.issued.Nodup
  owner : ∀ sid, ∀ hash ∈ m.issuedTo sid, ∀ sid', m.index hash = some sid' → sid' = sid

theorem killings_withDurability (policy : SessionPolicy) : (withDurability policy).Killings :=
  ⟨rfl, List.nodup_nil, (fun _ h => by cases h), (fun _ _ h => by cases h), List.nodup_nil,
    fun _ _ h => by cases h⟩

/-- A move that kills nothing and issues nothing. -/
theorem Killings.frame {m m' : SessionMap} (h : m.Killings) (ht : m'.tombstoned = m.tombstoned)
    (hk : m'.killed = m.killed) (hc : m'.created = m.created)
    (he : ∀ sid e', m'.sessions sid = some e' → ∃ e, m.sessions sid = some e ∧
      e'.status = e.status)
    (hiss : m'.issued = m.issued) (hi : ∀ sid, m'.issuedTo sid = m.issuedTo sid)
    (hx : ∀ hash sid, m'.index hash = some sid → m.index hash = some sid) : m'.Killings := by
  refine ⟨by rw [ht, hk, h.same], hk ▸ h.nodup, fun sid hs => ?_, fun sid e' he' hs => ?_,
    hiss ▸ h.issued, fun sid hash hh sid' hs => ?_⟩
  · rw [hk] at hs; exact hc ▸ h.created sid hs
  · obtain ⟨e, he, hst⟩ := he sid e' he'
    exact hst.trans (h.entry sid e he (hk ▸ hs))
  · exact h.owner sid hash (hi sid ▸ hh) sid' (hx hash sid' hs)

/-- A move that kills nothing and issues `fresh` to one session. -/
theorem Killings.issue {m m' : SessionMap} (h : m.Killings) (sid : Sid) {fresh : List TokenHash}
    (hfresh : ∀ hash ∈ fresh, ¬ m.Knows hash) (hnodup : fresh.Nodup)
    (ht : m'.tombstoned = m.tombstoned) (hk : m'.killed = m.killed)
    (hc : ∀ s ∈ m.created, s ∈ m'.created)
    (he : ∀ s e', m'.sessions s = some e' → s ∈ m.killed → e'.status = .tombstoned)
    (hiss : m'.issued = m.issued ++ fresh)
    (hi : ∀ s, ∀ hash ∈ m'.issuedTo s, hash ∈ m.issuedTo s ∨ sid = s ∧ hash ∈ fresh)
    (hx : ∀ hash s, m'.index hash = some s → m.index hash = some s ∨ sid = s ∧ hash ∈ fresh) :
    m'.Killings where
  same := by rw [ht, hk, h.same]
  nodup := hk ▸ h.nodup
  created s hs := hc s (h.created s (hk ▸ hs))
  entry s e' he' hs := he s e' he' (hk ▸ hs)
  issued := by
    rw [hiss]
    refine List.nodup_append.2 ⟨h.issued, hnodup, fun a ha b hb hab => hfresh b hb (Or.inr ?_)⟩
    rwa [← hab]
  owner s hash hh s' hs' := by
    rcases hi s hash hh with hold | ⟨rfl, hnew⟩
    · rcases hx hash s' hs' with hidx | ⟨-, hnew⟩
      · exact h.owner s hash hold s' hidx
      · exact absurd (Or.inr ((issuedTo_sublist ..).subset hold)) (hfresh hash hnew)
    · rcases hx hash s' hs' with hidx | ⟨hsid, -⟩
      · exact absurd (Or.inl (by rw [hidx]; exact Option.some_ne_none _)) (hfresh hash hnew)
      · exact hsid.symm

theorem Killings.move {op : Op} {m m' : SessionMap} (hc : m.Counted) (h : m.Killings)
    (hm : Move op m m') : m'.Killings := by
  have same : ∀ sid e, m.sessions sid = some e → ∃ e₀, m.sessions sid = some e₀ ∧
      e.status = e₀.status := fun sid e he => ⟨e, he, rfl⟩
  cases hm with
  | @create _ sid custody sub token now hh hs =>
    have hk : sid ∉ m.killed := fun hx => hs (Or.inr (h.created sid hx))
    refine h.issue sid (List.forall_mem_singleton.2 hh) (List.nodup_singleton _)
      (by simp [tombstoned]) (by simp [killed]) (fun s hs' => ?_) ?_ ?_ (fun s hash hi => ?_)
      (fun hash s hx => ?_)
    · rw [created_create]
      exact List.mem_append_left _ hs'
    · rw [create_sessions]
      refine forall_update h.entry ?_
      rintro _ ⟨⟩ hx
      exact absurd hx hk
    · simp [SessionMap.issued, create_queue, filterMap_issues_new, newEntry]
    · simpa [issuedTo, create_queue, filterMap_issuesTo_new, newEntry] using hi
    · rw [create_index, Function.update_apply] at hx
      split_ifs at hx with heq
      · exact Or.inr ⟨Option.some.inj hx, by simp [heq]⟩
      · exact Or.inl hx
  | @refresh _ hash token now sid e e' cookies effects hh hi he hr =>
    have hadd := SessionEntry.refresh_added hr
    have hfresh : ∀ hash' ∈ effects.added.toList.map (·.tokenHash), ¬ m.Knows hash' := by
      intro hash' hmem
      obtain ⟨g, hg, rfl⟩ := List.mem_map.1 hmem
      rwa [hadd g (Option.mem_toList.1 hg)]
    refine h.issue sid hfresh (by cases effects.added <;> simp)
      (by simp [tombstoned, SessionCommand.tombstones, List.filterMap_cons]) (by simp [killed])
      (fun s hs' => ?_) ?_ ?_ (fun s hash' hmem => ?_) (fun hash' s hx => ?_)
    · rwa [created_commit]
    · rw [commit_sessions]
      refine forall_update h.entry ?_
      rintro _ ⟨⟩ hs'
      exact (SessionEntry.refresh_status hr).trans (h.entry sid e he hs')
    · simp [SessionMap.issued, SessionCommand.issues, List.filterMap_cons]
    · simp only [issuedTo, commit_queue, List.filterMap_append, filterMap_issuesTo_commands,
        List.mem_append] at hmem
      rcases hmem with hmem | hmem | hmem
      · exact Or.inl hmem
      · split_ifs at hmem with hsid
        · exact Or.inr ⟨hsid, hmem⟩
        · cases hmem
      · simp [SessionCommand.issuesTo] at hmem
    · rw [commit_index, IndexEffects.index] at hx
      split_ifs at hx with h₁ h₂
      · obtain ⟨g, hg, hgh⟩ := h₂
        exact Or.inr ⟨Option.some.inj hx, List.mem_map.2 ⟨g, Option.mem_toList.2 hg, hgh⟩⟩
      · exact Or.inl hx
  | @kill _ op sid e now reason hk he ha =>
    have hno : sid ∉ m.killed := fun hx => by
      rw [h.entry sid e he hx] at ha; cases ha
    refine ⟨?_, ?_, fun sid' hs' => ?_, ?_, ?_, fun sid' hash hi sid'' hx => ?_⟩
    · simpa [tombstoned, killed, SessionCommand.tombstones, SessionEvent.kills] using h.same
    · simp only [killed, kill_events, List.filterMap_append]
      rw [List.nodup_append]
      refine ⟨h.nodup, by simp [SessionEvent.kills], fun a ha b hb hab => ?_⟩
      have hb : b = sid := by simpa [SessionEvent.kills] using hb
      exact hno (hb ▸ hab ▸ ha)
    · have hcr : sid' ∈ m.created := by
        simp only [killed, kill_events, List.filterMap_append, List.mem_append] at hs'
        rcases hs' with hs' | hs'
        · exact h.created sid' hs'
        · have : sid' = sid := by simpa [SessionEvent.kills] using hs'
          exact this ▸ hc.entry sid e he
      rwa [created_kill]
    · rw [kill_sessions]
      intro sid' e' he' hs'
      rw [Function.update_apply] at he'
      split_ifs at he' with hss
      · cases he'; rfl
      · refine h.entry sid' e' he' ?_
        simp only [killed, kill_events, List.filterMap_append, List.mem_append] at hs'
        refine hs'.resolve_right fun hx => hss ?_
        simpa [SessionEvent.kills] using hx
    · simpa [SessionMap.issued, SessionCommand.issues, List.filterMap_cons] using h.issued
    · exact h.owner sid' hash (by simpa [issuedTo, SessionCommand.issuesTo] using hi) sid'' hx
  | @touch _ order custody status sid e he hcu =>
    exact h.frame rfl rfl rfl (forall_update same (by rintro _ ⟨⟩; exact ⟨e, he, rfl⟩)) rfl
      (fun _ => rfl) fun _ _ => id
  | announce =>
    exact h.frame rfl (by simp [killed, SessionEvent.kills]) rfl same rfl (fun _ => rfl)
      fun _ _ => id
  | @reap _ order now sid e he =>
    refine h.frame (by simp [tombstoned]) (by simp [killed]) (by simp) ?_
      (by simp [SessionMap.issued]) (fun sid' => by simp [issuedTo]) fun hash sid' hx => ?_
    · rw [reap_sessions]
      refine forall_update same ?_
      rintro _ ⟨⟩
      exact ⟨e, he, SessionEntry.reap_status ..⟩
    · rw [reap_index, IndexEffects.index] at hx
      simp only [SessionEntry.reap_added] at hx
      split_ifs at hx with h₁ h₂
      · simp at h₂
      · exact hx
  | @remove _ order now sid e he hcol =>
    refine h.frame (by simp [tombstoned]) (by simp [killed]) (by simp) ?_
      (by simp [SessionMap.issued]) (fun sid' => by simp [issuedTo]) fun hash sid' hx => ?_
    · rw [forget_sessions]; exact forall_update same (fun _ h => by cases h)
    · rw [forget_index] at hx
      dsimp only at hx
      split_ifs at hx
      exact hx

theorem Killings.dead {m : SessionMap} {sid : Sid} {hash : TokenHash} (hc : m.Wf) (h : m.Killings)
    (hk : sid ∈ m.killed) (hh : hash ∈ m.issuedTo sid) (t : Timestamp) :
    m.resolve hash t = .unknown ∨ m.resolve hash t = .hardExpired sid .loggedOut := by
  unfold resolve
  cases hi : m.index hash with
  | none => exact Or.inl rfl
  | some sid' =>
    obtain rfl := h.owner sid hash hh sid' hi
    cases he : m.sessions sid' with
    | none => simp only [he]; exact Or.inl trivial
    | some e =>
      have hs := h.entry sid' e he hk
      simp only [he, SessionEntry.classify, SessionEntry.sessionExpiry, hs, if_true,
        hc.own sid' e he]
      exact Or.inr trivial

/-- What holds after every fresh run. -/
structure Kept (m : SessionMap) (policy : SessionPolicy) : Prop where
  wf : m.Wf
  counted : m.Counted
  capped : m.Capped
  killings : m.Killings
  policy : m.policy = policy

theorem Kept.move {policy : SessionPolicy} {op : Op} {m m' : SessionMap} (h : m.Kept policy)
    (hm : Move op m m') : m'.Kept policy :=
  ⟨h.wf.move hm, h.counted.move h.wf hm, h.capped.move h.wf hm, h.killings.move h.counted hm,
    hm.policy.trans h.policy⟩

theorem kept_withDurability (policy : SessionPolicy) : (withDurability policy).Kept policy :=
  ⟨wf_withDurability policy, counted_withDurability policy, (fun _ _ h => by cases h),
    killings_withDurability policy, rfl⟩

theorem kept_run (policy : SessionPolicy) {ops : List Op} (hf : Fresh ops) :
    (runs policy ops).Kept policy :=
  fresh_invariant (Kept · policy) (kept_withDurability policy) (fun _ _ _ h hm => h.move hm)
    (hf.from policy)

/-- A hash that does not resolve to a usable verdict does not refresh. -/
theorem refresh_denied {m : SessionMap} {hash : TokenHash} {t : Timestamp}
    (h : (m.resolve hash t).refreshable = false) (token : SessionToken) :
    ∃ reason, m.refresh hash token t = (m, .error reason) := by
  unfold resolve at h
  unfold refresh
  cases hi : m.index hash with
  | none => exact ⟨_, rfl⟩
  | some sid =>
    cases he : m.sessions sid with
    | none => simp only [he]; exact ⟨_, rfl⟩
    | some e =>
      simp only [hi, he] at h ⊢
      rcases hr : e.refresh hash token t m.policy with reason | ⟨e', cookies, effects⟩
      · exact ⟨reason, rfl⟩
      · rw [(SessionEntry.refresh_cases hr).1] at h; cases h

/-- **A refresh succeeds** exactly on a usable verdict. -/
theorem refresh_ok_iff {m : SessionMap} {hash : TokenHash} {t : Timestamp} (token : SessionToken) :
    (∃ m' cookies, m.refresh hash token t = (m', .ok cookies)) ↔
      (m.resolve hash t).refreshable = true := by
  constructor
  · rintro ⟨m', cookies, h⟩
    by_contra hn
    obtain ⟨reason, hd⟩ := refresh_denied (Bool.eq_false_iff.2 hn) token
    rw [hd] at h
    cases h
  · intro h
    unfold resolve at h
    cases hi : m.index hash with
    | none =>
      rw [hi] at h
      cases h
    | some sid =>
      cases he : m.sessions sid with
      | none =>
        simp only [hi, he] at h
        cases h
      | some e =>
        simp only [hi, he] at h
        obtain ⟨⟨e', cookies, effects⟩, hr⟩ := SessionEntry.refresh_ok token h
        exact ⟨_, cookies, by simp only [refresh, hi, he, hr]; rfl⟩

end SessionMap

/-! ## What a call reports -/

/-- The kills a call's answer admits to. -/
def Reply.Reports : Op → Reply → List Sid → Prop
  | .tombstone sid _ _, reply, kills =>
    reply = .killed true ∧ kills = [sid] ∨ reply = .killed false ∧ kills = []
  | .tombstoneByCustody .., reply, kills => reply = .killedAll kills.length
  | _, _, kills => kills = []

namespace SessionMap

/-- What one tombstone call adds to the events and to the queue. -/
theorem tombstone_reports (m : SessionMap) (sid : Sid) (now : Timestamp) (reason : KillReason) :
    let r := m.tombstoneSessionWithReason sid now reason
    let kills := if r.2 then [sid] else []
    r.1.killed = m.killed ++ kills ∧ r.1.tombstoned = m.tombstoned ++ kills := by
  unfold tombstoneSessionWithReason
  cases he : m.sessions sid with
  | none => simp
  | some e =>
    by_cases ha : e.status = .alive <;>
      simp [ha, killed, tombstoned, SessionEvent.kills, SessionCommand.tombstones]

theorem tombstoneByCustody_reports (m : SessionMap) (order : List Sid) (custody : CustodyId)
    (now : Timestamp) :
    let r := m.tombstoneByCustody order custody now
    ∃ kills, r.1.killed = m.killed ++ kills ∧ r.1.tombstoned = m.tombstoned ++ kills ∧
      r.2 = kills.length := by
  unfold tombstoneByCustody
  generalize m.backedBy order custody = sids
  suffices h : ∀ r : SessionMap × ℕ, ∃ kills,
      (sids.foldl (fun r sid =>
        let killed := r.1.tombstoneSessionWithReason sid now .upstreamRevoked
        (killed.1, if killed.2 then r.2 + 1 else r.2)) r).1.killed = r.1.killed ++ kills ∧
      (sids.foldl (fun r sid =>
        let killed := r.1.tombstoneSessionWithReason sid now .upstreamRevoked
        (killed.1, if killed.2 then r.2 + 1 else r.2)) r).1.tombstoned = r.1.tombstoned ++ kills ∧
      (sids.foldl (fun r sid =>
        let killed := r.1.tombstoneSessionWithReason sid now .upstreamRevoked
        (killed.1, if killed.2 then r.2 + 1 else r.2)) r).2 = r.2 + kills.length by
    simpa using h (m, 0)
  induction sids with
  | nil => exact fun r => ⟨[], by simp⟩
  | cons sid sids ih =>
    intro r
    obtain ⟨h₁, h₂⟩ := tombstone_reports r.1 sid now .upstreamRevoked
    obtain ⟨kills, h₃, h₄, h₅⟩ := ih ((r.1.tombstoneSessionWithReason sid now .upstreamRevoked).1,
      if (r.1.tombstoneSessionWithReason sid now .upstreamRevoked).2 then r.2 + 1 else r.2)
    refine ⟨(if (r.1.tombstoneSessionWithReason sid now .upstreamRevoked).2 then [sid] else []) ++
      kills, ?_, ?_, ?_⟩
    · rw [List.foldl_cons, h₃, h₁, List.append_assoc]
    · rw [List.foldl_cons, h₄, h₂, List.append_assoc]
    · rw [List.foldl_cons, h₅]
      split_ifs
      · simp only [List.singleton_append, List.length_cons]; omega
      · rfl

/-- Any other call kills nothing. -/
theorem moves_kill_nothing {op : Op} (hk : op.kills = none) {m m' : SessionMap}
    (h : ReflTransGen (Move op) m m') : m'.killed = m.killed ∧ m'.tombstoned = m.tombstoned := by
  refine moves_invariant (fun m' => m'.killed = m.killed ∧ m'.tombstoned = m.tombstoned)
    (fun m₁ m₂ hi hm => ?_) h ⟨rfl, rfl⟩
  rw [← hi.1, ← hi.2]
  cases hm with
  | kill reason hn => rw [hk] at hn; cases hn
  | touch => exact ⟨rfl, rfl⟩
  | _ => constructor <;> simp [killed, tombstoned, SessionEvent.kills, SessionCommand.tombstones,
      List.filterMap_cons]

/-- **A call announces and enqueues exactly the kills it reports.** -/
theorem call_reports {m : SessionMap} {op : Op} (hf : op.FreshIn m) :
    ∃ kills, (m.step op).killed = m.killed ++ kills ∧
      (m.step op).tombstoned = m.tombstoned ++ kills ∧ (m.call op).2.Reports op kills := by
  cases op with
  | tombstone sid reason now =>
    obtain ⟨h₁, h₂⟩ := tombstone_reports m sid now reason
    refine ⟨_, h₁, h₂, ?_⟩
    cases hd : (m.tombstoneSessionWithReason sid now reason).2
    · exact Or.inr ⟨by simp [call, hd], rfl⟩
    · exact Or.inl ⟨by simp [call, hd], rfl⟩
  | tombstoneByCustody order custody now =>
    obtain ⟨kills, h₁, h₂, h₃⟩ := tombstoneByCustody_reports m order custody now
    exact ⟨kills, h₁, h₂, congrArg Reply.killedAll h₃⟩
  | _ =>
    obtain ⟨h₁, h₂⟩ := moves_kill_nothing rfl (step_moves hf)
    exact ⟨[], by simpa using h₁, by simpa using h₂, rfl⟩

end SessionMap

/-! ## The durable side -/

namespace Tables

/-- What every command preserves, a batch preserves. -/
theorem applyAll_invariant (P : Tables → Prop)
    (hP : ∀ t c t', P t → t.applyCommand c = some t' → P t') {cmds : List SessionCommand}
    {t t' : Tables} (h : P t) (ha : t.applyAll cmds = some t') : P t' :=
  Transaction.applyAll_invariant P (fun t t' c => hP t c t') h ha

/-- A session has a row. -/
def HasRow (t : Tables) (sid : Sid) : Prop := ∃ r ∈ t.session, r.row.sid = sid

/-- A session is tombstoned in the table. -/
structure Dead (t : Tables) (sid : Sid) : Prop where
  row : t.HasRow sid
  tombstoned : ∀ r ∈ t.session, r.row.sid = sid → r.row.status = .tombstoned

/-- What a command does to the session rows: it appends one under a new sid, or
    changes some in place, never the sid and never to alive. -/
theorem applyCommand_session {t t' : Tables} {c : SessionCommand} (h : t.applyCommand c = some t') :
    (∃ f : SessionRecord → SessionRecord, t'.session = t.session.map f ∧
      ∀ r, (f r).row.sid = r.row.sid ∧
        (r.row.status = .tombstoned → (f r).row.status = .tombstoned)) ∨
    ∃ r, t'.session = t.session ++ [r] ∧ c = .insertSession r.row ∧
      ∀ r' ∈ t.session, r'.row.sid ≠ r.row.sid := by
  have same : ∃ f : SessionRecord → SessionRecord, t.session = t.session.map f ∧
      ∀ r, (f r).row.sid = r.row.sid ∧
        (r.row.status = .tombstoned → (f r).row.status = .tombstoned) :=
    ⟨id, (List.map_id _).symm, fun r => ⟨rfl, id⟩⟩
  cases c with
  | insertSession row =>
    right
    simp only [applyCommand, insertSession] at h
    split_ifs at h with hs
    simp only [Option.map_eq_some_iff] at h
    obtain ⟨c, -, rfl⟩ := h
    refine ⟨⟨row, none, c.providerId⟩, rfl, rfl, fun r' hr' hx => hs ?_⟩
    exact List.any_eq_true.2 ⟨r', hr', by simpa using hx⟩
  | updateSessionProgress sid currentGen idleExp =>
    left
    cases h
    refine ⟨_, rfl, fun r => ?_⟩
    dsimp only
    split_ifs <;> exact ⟨rfl, id⟩
  | tombstoneSession sid now =>
    left
    cases h
    refine ⟨_, rfl, fun r => ?_⟩
    dsimp only
    split_ifs
    · exact ⟨rfl, fun _ => rfl⟩
    · exact ⟨rfl, id⟩
  | insertGeneration sid genNo hash createdAt activeUntil =>
    left
    simp only [applyCommand, insertGeneration] at h
    split_ifs at h
    cases h
    exact same
  | supersedeGeneration hash supersededAt => cases h; exact Or.inl same
  | deleteGeneration hash => cases h; exact Or.inl same

theorem HasRow.applyCommand {t t' : Tables} {sid : Sid} {c : SessionCommand} (hr : t.HasRow sid)
    (h : t.applyCommand c = some t') : t'.HasRow sid := by
  obtain ⟨r, hr, hs⟩ := hr
  rcases applyCommand_session h with ⟨f, hf, hp⟩ | ⟨r', hr', -⟩
  · exact ⟨f r, hf ▸ List.mem_map_of_mem hr, (hp r).1.trans hs⟩
  · exact ⟨r, hr' ▸ List.mem_append_left _ hr, hs⟩

theorem Dead.applyCommand {t t' : Tables} {sid : Sid} {c : SessionCommand} (hd : t.Dead sid)
    (h : t.applyCommand c = some t') : t'.Dead sid := by
  refine ⟨hd.row.applyCommand h, fun r hr hs => ?_⟩
  rcases applyCommand_session h with ⟨f, hf, hp⟩ | ⟨r', hr', -, hn⟩
  · rw [hf] at hr
    obtain ⟨r₀, hr₀, rfl⟩ := List.mem_map.1 hr
    exact (hp r₀).2 (hd.tombstoned r₀ hr₀ ((hp r₀).1.symm.trans hs))
  · rw [hr', List.mem_append, List.mem_singleton] at hr
    rcases hr with hr | rfl
    · exact hd.tombstoned r hr hs
    · obtain ⟨r₀, hr₀, hs₀⟩ := hd.row
      exact absurd (hs₀.trans hs.symm) (hn r₀ hr₀)

theorem Dead.applyBatches {sid : Sid} (batches : List (List SessionCommand)) {t : Tables}
    (h : t.Dead sid) : (batches.foldl applyBatch t).Dead sid := by
  induction batches generalizing t with
  | nil => exact h
  | cons batch batches ih =>
    refine ih ?_
    unfold applyBatch
    cases hb : t.applyAll batch with
    | none => exact h
    | some t' => exact applyAll_invariant (·.Dead sid) (fun _ _ _ hd ha => hd.applyCommand ha) h hb

theorem HasRow.tombstone {t : Tables} {sid : Sid} (h : t.HasRow sid) (now : Timestamp) :
    (t.tombstoneSession sid now).Dead sid := by
  refine ⟨h.applyCommand (c := .tombstoneSession sid now) rfl, fun r hr hs => ?_⟩
  obtain ⟨r₀, -, rfl⟩ := List.mem_map.1 hr
  dsimp only at hs ⊢
  split_ifs at hs ⊢ with hx
  · rfl
  · exact absurd hs hx

theorem Dead.not_rehydrated {t : Tables} {sid : Sid} (h : t.Dead sid) :
    ∀ r ∈ t.rehydrate, r.session.sid ≠ sid := by
  intro r hr hs
  obtain ⟨⟨s, hs', hrow⟩, ha⟩ := rehydrate_alive hr
  have hx := h.tombstoned s hs' (by rw [hrow]; exact hs)
  rw [hrow, ha] at hx
  cases hx

end Tables

namespace SessionMap

/-! ## Order in the queue -/

/-- A session is inserted before it is tombstoned. -/
def InsertedFirst (m : SessionMap) : Prop :=
  ∀ pre sid now post, m.queue = pre ++ .tombstoneSession sid now :: post →
    sid ∈ pre.filterMap SessionCommand.creates

end SessionMap

theorem Move.tombstones {op : Op} {m m' : SessionMap} (hc : m.Counted) (h : Move op m m') :
    ∃ cmds, m'.queue = m.queue ++ cmds ∧
      ∀ sid now, .tombstoneSession sid now ∈ cmds → sid ∈ m.created := by
  have none : ∀ {cmds : List SessionCommand}, cmds.filterMap SessionCommand.tombstones = [] →
      ∀ sid now, .tombstoneSession sid now ∈ cmds → sid ∈ m.created := by
    intro cmds hn sid now hx
    have hs : sid ∈ cmds.filterMap SessionCommand.tombstones := List.mem_filterMap.2 ⟨_, hx, rfl⟩
    rw [hn] at hs
    cases hs
  cases h with
  | create => exact ⟨_, SessionMap.create_queue .., none (by simp)⟩
  | refresh =>
    exact ⟨_, SessionMap.commit_queue .., none (by simp [SessionCommand.tombstones])⟩
  | @kill _ op sid e now reason hk he ha =>
    refine ⟨_, SessionMap.kill_queue .., fun sid' now' hx => ?_⟩
    simp only [List.mem_singleton, SessionCommand.tombstoneSession.injEq] at hx
    exact hx.1 ▸ hc.entry sid e he
  | touch | announce => exact ⟨[], (List.append_nil _).symm, fun _ _ h => by cases h⟩
  | reap => exact ⟨_, SessionMap.reap_queue .., none (by simp)⟩
  | remove => exact ⟨[], by simp, fun _ _ h => by cases h⟩

namespace SessionMap

theorem InsertedFirst.move {op : Op} {m m' : SessionMap} (hc : m.Counted) (h : m.InsertedFirst)
    (hm : Move op m m') : m'.InsertedFirst := by
  intro pre sid now post hq
  obtain ⟨cmds, hcmds, ht⟩ := hm.tombstones hc
  rw [hcmds, List.append_eq_append_iff] at hq
  rcases hq with ⟨l, rfl, hl⟩ | ⟨l, hl, hr⟩
  · -- the tombstone is among the new commands
    rw [List.filterMap_append, List.mem_append]
    exact Or.inl (ht sid now (hl ▸ List.mem_append_right _ List.mem_cons_self))
  · cases l with
    | nil =>
      rw [List.nil_append] at hr
      rw [List.append_nil] at hl
      rw [← hl]
      exact ht sid now (hr ▸ List.mem_cons_self)
    | cons c l =>
      obtain ⟨rfl, -⟩ := List.cons.inj hr
      exact h pre sid now l hl

end SessionMap

theorem Tables.hasRow_of_created {t t' : Tables} {cmds : List SessionCommand} {sid : Sid}
    (h : t.applyAll cmds = some t') (hs : sid ∈ cmds.filterMap SessionCommand.creates) :
    t'.HasRow sid := by
  induction cmds generalizing t with
  | nil => cases hs
  | cons c cmds ih =>
    simp only [applyAll, List.foldlM_cons, Option.bind_eq_bind, Option.bind_eq_some_iff] at h
    obtain ⟨t₁, h₁, h₂⟩ := h
    rw [List.mem_filterMap] at hs
    obtain ⟨c', hc', hs⟩ := hs
    rcases List.mem_cons.1 hc' with rfl | hc'
    · cases c' with
      | insertSession row =>
        cases hs
        refine applyAll_invariant (·.HasRow row.sid) (fun _ _ _ hr ha => hr.applyCommand ha) ?_ h₂
        rcases applyCommand_session h₁ with ⟨f, hf, -⟩ | ⟨r, hr, hc, -⟩
        · simp only [applyCommand, insertSession] at h₁
          split_ifs at h₁
          obtain ⟨cu, -, rfl⟩ := Option.map_eq_some_iff.1 h₁
          exact ⟨_, List.mem_append_right _ (List.mem_singleton_self _), rfl⟩
        · cases hc
          exact ⟨r, hr ▸ List.mem_append_right _ (List.mem_singleton_self _), rfl⟩
      | _ => cases hs
    · exact ih h₂ (List.mem_filterMap.2 ⟨c', hc', hs⟩)

namespace SessionMap

theorem insertedFirst_run (policy : SessionPolicy) {ops : List Op} (hf : Fresh ops) :
    (runs policy ops).InsertedFirst := by
  have hstart : (withDurability policy).InsertedFirst := by simp [InsertedFirst, withDurability]
  exact (fresh_invariant (fun m => m.Kept policy ∧ m.InsertedFirst)
    ⟨kept_withDurability policy, hstart⟩
    (fun op m m' h hm => ⟨h.1.move hm, h.2.move h.1.counted hm⟩) (hf.from policy)).2

/-- **A killed session stays dead.** -/
theorem killed_stays_dead (policy : SessionPolicy) (ops : List Op) (hf : Fresh ops) :
    (∀ before later, ops = before ++ later → ∀ sid ∈ (runs policy before).killed,
      ∀ hash ∈ (runs policy ops).issuedTo sid, ∀ t,
        ((runs policy ops).resolve hash t).refreshable = false ∧
        ∀ token, ∃ reason,
          (runs policy ops).refresh hash token t = (runs policy ops, .error reason)) ∧
    (∀ sid, (runs policy ops).killed.count sid ≤ 1 ∧ (runs policy ops).tombstoned.count sid ≤ 1) ∧
    (∀ before op later, ops = before ++ op :: later → ∃ kills,
      (runs policy (before ++ [op])).killed = (runs policy before).killed ++ kills ∧
      (runs policy (before ++ [op])).tombstoned = (runs policy before).tombstoned ++ kills ∧
      ((runs policy before).call op).2.Reports op kills) ∧
    ∀ pre sid now post, (runs policy ops).queue = pre ++ .tombstoneSession sid now :: post →
      ∀ t₀ t : Tables, t₀.applyAll pre = some t → ∀ batches : List (List SessionCommand),
        ∀ r ∈ (batches.foldl Tables.applyBatch (t.tombstoneSession sid now)).rehydrate,
          r.session.sid ≠ sid := by
  obtain ⟨hw, hc, -, hk, -⟩ := kept_run policy hf
  have hi := insertedFirst_run policy hf
  refine ⟨?_, fun sid => ?_, ?_, ?_⟩
  · rintro before later rfl sid hs hash hh t
    have hs' : sid ∈ (runs policy (before ++ later)).killed :=
      fresh_stable (sid ∈ killed ·) hs (fun op m m' hx hm => hm.killed.subset hx) (hf.from policy)
    have hr : ((runs policy (before ++ later)).resolve hash t).refreshable = false := by
      rcases hk.dead hw hs' hh t with h | h <;> rw [h] <;> rfl
    exact ⟨hr, refresh_denied hr⟩
  · rw [hk.same]
    exact ⟨List.nodup_iff_count_le_one.1 hk.nodup sid, List.nodup_iff_count_le_one.1 hk.nodup sid⟩
  · rintro before op later rfl
    rw [List.append_cons] at hf
    have := call_reports (m := runs policy before) (hf.of_append.from policy).freshIn
    simpa only [runs, run_concat] using this
  · intro pre sid now post hq t₀ t ht batches
    have hrow := Tables.hasRow_of_created ht (hi pre sid now post hq)
    exact ((hrow.tombstone now).applyBatches batches).not_rehydrated

/-- At a concrete run: a login, a logout and a late refresh. -/
theorem killed_stays_dead_logout :
    let ops := [Op.create ⟨"s"⟩ ⟨"c"⟩ "alice" .sample1 ⟨0⟩, .tombstone ⟨"s"⟩ .loggedOut ⟨5⟩,
      .refresh SessionToken.sample1.hash .sample2 ⟨6⟩]
    (runs {} ops).killed = [⟨"s"⟩] ∧ (runs {} ops).killed.count ⟨"s"⟩ ≤ 1 :=
  ⟨by decide, ((killed_stays_dead {} _ (by decide)).2.1 ⟨"s"⟩).1⟩

end SessionMap

end SessionBroker
