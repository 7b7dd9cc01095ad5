/-
  The representation invariant of the session map.

  * `Wf`: entries are sound and filed under their own sid, and the token index
    maps exactly the hashes they hold; preserved by every move at any times;
  * `Counted`: an entry's numbering follows the `InsertGeneration` commands
    sent for its session.
-/
import SessionBroker.Ops
import SessionBroker.Sound

namespace SessionBroker

open Relation Runs

namespace SessionMap

/-! ## The token index -/

/-- The index maps the hashes the entries hold, each to its sid, and no other. -/
def IndexExact (m : SessionMap) : Prop :=
  ∀ hash sid, m.index hash = some sid ↔ ∃ e, m.sessions sid = some e ∧ hash ∈ e.allHashes

section
variable {m : SessionMap} {sid : Sid} {e e' : SessionEntry}

theorem IndexExact.mem (h : m.IndexExact) (he : m.sessions sid = some e) {hash : TokenHash} :
    m.index hash = some sid ↔ hash ∈ e.allHashes := by
  rw [h hash sid]
  constructor
  · rintro ⟨e', he', hh⟩; rw [he] at he'; cases he'; exact hh
  · exact fun hh => ⟨e, he, hh⟩

/-- Two sessions hold no hash in common. -/
theorem IndexExact.disjoint (h : m.IndexExact) {sid' : Sid} (he : m.sessions sid = some e)
    (he' : m.sessions sid' = some e') (hs : sid ≠ sid') : e.allHashes.Disjoint e'.allHashes := by
  intro hash hh hh'
  have h₁ := (h.mem he).2 hh
  rw [(h.mem he').2 hh'] at h₁
  exact hs (Option.some.inj h₁).symm

theorem IndexExact.resolve (h : m.IndexExact) (he : m.sessions sid = some e) {hash : TokenHash}
    (hh : hash ∈ e.allHashes) (t : Timestamp) :
    m.resolve hash t = e.classify hash t m.policy := by
  simp only [SessionMap.resolve, (h.mem he).2 hh, he]

/-- A hash that means anything is held by an entry. -/
theorem IndexExact.resolved (h : m.IndexExact) {hash : TokenHash} {t : Timestamp}
    (hr : m.resolve hash t ≠ .unknown) : ∃ sid e, m.sessions sid = some e ∧
      hash ∈ e.allHashes ∧ m.resolve hash t = e.classify hash t m.policy := by
  unfold SessionMap.resolve at hr ⊢
  cases hi : m.index hash with
  | none => simp [hi] at hr
  | some sid =>
    obtain ⟨e, he, hh⟩ := (h hash sid).1 hi
    exact ⟨sid, e, he, hh, by simp [he]⟩

/-- **What authenticates**: a generation that some entry holds. -/
theorem IndexExact.resolve_authenticates (h : m.IndexExact)
    (hn : ∀ sid e, m.sessions sid = some e → (e.gens.map (·.tokenHash)).Nodup) {hash : TokenHash}
    {t : Timestamp} : (m.resolve hash t).authenticates = true ↔ ∃ sid e, m.sessions sid = some e ∧
      e.sessionExpiry t m.policy = none ∧
      ∃ g ∈ e.gens, g.tokenHash = hash ∧ t < g.resourceValidUntil m.policy.graceSecs := by
  constructor
  · intro ha
    have hne : m.resolve hash t ≠ .unknown := fun hx => by
      rw [hx] at ha
      cases ha
    obtain ⟨sid, e, he, -, hr⟩ := h.resolved hne
    rw [hr] at ha
    exact ⟨sid, e, he, (SessionEntry.classify_authenticates (hn sid e he)).1 ha⟩
  · rintro ⟨sid, e, he, hx, g, hg, rfl, hv⟩
    rw [h.resolve he (List.mem_append_left _ (List.mem_map_of_mem hg))]
    exact (SessionEntry.classify_authenticates (hn sid e he)).2 ⟨hx, g, hg, rfl, hv⟩

theorem IndexExact.create {custody : CustodyId} {sub : String} {token : SessionToken}
    {now : Timestamp} (h : m.IndexExact) (hi : m.index token.hash = none)
    (he : m.sessions sid = none) : (m.create sid custody sub token now).1.IndexExact := by
  intro hash sid'
  simp only [create_index, create_sessions, Function.update_apply]
  by_cases hs : sid' = sid
  · subst hs
    have hno : m.index hash ≠ some sid' := fun hx => by
      obtain ⟨e, he', -⟩ := (h hash sid').1 hx; rw [he] at he'; cases he'
    by_cases ht : hash = token.hash
    · simp [SessionEntry.allHashes, newEntry, ht]
    · simp [SessionEntry.allHashes, newEntry, hno, ht, Ne.symm ht]
  · rw [if_neg hs, ← h hash sid']
    split_ifs with h₁
    · subst h₁; rw [hi]
      exact ⟨fun hx => absurd (Option.some.inj hx).symm hs, fun h => by cases h⟩
    · exact Iff.rfl

theorem IndexExact.setEntry (h : m.IndexExact) (he : m.sessions sid = some e)
    (hh : e'.allHashes = e.allHashes) : (m.setEntry sid e').IndexExact := by
  intro hash sid'
  simp only [setEntry_index, setEntry_sessions, Function.update_apply]
  split_ifs with hs
  · subst hs; simp [h.mem he, hh]
  · exact h hash sid'

/-- An update that inserts what it adds and removes what it purges. -/
theorem IndexExact.update {effects : IndexEffects} (h : m.IndexExact)
    (he : m.sessions sid = some e)
    (hp : (e'.allHashes ++ effects.purged).Perm
      (effects.added.toList.map (·.tokenHash) ++ e.allHashes))
    (hn : e.allHashes.Nodup) (hf : ∀ g ∈ effects.added, m.index g.tokenHash = none) :
    ((m.setEntry sid e').apply effects sid).IndexExact := by
  have hadd : ∀ g ∈ effects.added, g.tokenHash ∉ e.allHashes := fun g hg hh => by
    rw [← h.mem he, hf g hg] at hh; cases hh
  have hn' : (e'.allHashes ++ effects.purged).Nodup := by
    refine hp.nodup_iff.2 (List.nodup_append.2 ⟨?_, hn, ?_⟩)
    · cases effects.added <;> simp
    · intro a ha b hb hab
      simp only [List.mem_map, Option.mem_toList] at ha
      obtain ⟨g, hg, rfl⟩ := ha
      exact hadd g hg (hab ▸ hb)
  intro hash sid'
  have hm := hp.mem_iff (a := hash)
  have hd : hash ∈ e'.allHashes → hash ∉ effects.purged := fun h₁ h₂ =>
    (List.nodup_append.1 hn').2.2 hash h₁ hash h₂ rfl
  simp only [List.mem_append, List.mem_map, Option.mem_toList] at hm
  simp only [apply_index, setEntry_index, apply_sessions, setEntry_sessions,
    Function.update_apply, IndexEffects.index]
  by_cases hs : sid' = sid
  · subst hs
    rw [if_pos rfl]
    simp only [Option.some.injEq, exists_eq_left']
    split_ifs with h₁ h₂
    · exact ⟨(fun h => by cases h), fun hh => absurd h₁ (hd hh)⟩
    · exact ⟨fun _ => (hm.2 (Or.inl h₂)).resolve_right h₁, fun _ => rfl⟩
    · rw [h.mem he]
      exact ⟨fun hh => (hm.2 (Or.inr hh)).resolve_right h₁,
        fun hh => (hm.1 (Or.inl hh)).resolve_left h₂⟩
  · rw [if_neg hs, ← h hash sid']
    split_ifs with h₁ h₂
    · refine ⟨(fun h => by cases h), fun hi => ?_⟩
      rcases hm.1 (Or.inr h₁) with ⟨g, hg, rfl⟩ | hh
      · rw [hf g hg] at hi; cases hi
      · rw [(h.mem he).2 hh] at hi; exact absurd (Option.some.inj hi).symm hs
    · obtain ⟨g, hg, rfl⟩ := h₂
      rw [hf g hg]
      exact ⟨fun hi => absurd (Option.some.inj hi).symm hs, fun h => by cases h⟩
    · exact Iff.rfl

theorem IndexExact.remove (h : m.IndexExact) (he : m.sessions sid = some e) :
    (m.forget sid e).IndexExact := by
  intro hash sid'
  simp only [forget_index, forget_sessions, Function.update_apply]
  by_cases hs : sid' = sid
  · subst hs
    simp [h.mem he]
  · rw [if_neg hs, ← h hash sid']
    split_ifs with h₁
    · rw [(h.mem he).2 h₁]
      exact ⟨(fun h => by cases h), fun hi => absurd (Option.some.inj hi).symm hs⟩
    · exact Iff.rfl

end

end SessionMap

theorem SessionEntry.newEntry_sound {policy : SessionPolicy} {sid : Sid} {custody : CustodyId}
    {sub : String} {token : SessionToken} {now : Timestamp} :
    (SessionMap.newEntry policy sid custody sub token now).Sound policy := by
  refine ⟨⟨[], _, rfl, rfl, rfl, (fun _ h => by cases h), ?_⟩, Nat.zero_le _, min_le_right _ _, ?_⟩
  · rintro _ ⟨⟩; rfl
  · simp [allHashes, SessionMap.newEntry]

namespace SessionMap

/-! ## Well-formed maps -/

structure Wf (m : SessionMap) : Prop where
  own : ∀ sid e, m.sessions sid = some e → e.sid = sid
  sound : ∀ sid e, m.sessions sid = some e → e.Sound m.policy
  index : m.IndexExact

theorem wf_withDurability (policy : SessionPolicy) : (withDurability policy).Wf :=
  ⟨(fun _ _ h => by cases h), (fun _ _ h => by cases h), fun hash sid => by simp [withDurability]⟩

/-- **Every move keeps the map well-formed.** -/
theorem Wf.move {op : Op} {m m' : SessionMap} (h : m.Wf) (hm : Move op m m') : m'.Wf := by
  cases hm with
  | @create _ sid custody sub token now hh hs =>
    have hi : m.index token.hash = none := not_not.1 fun hi => hh (Or.inl hi)
    have he : m.sessions sid = none := not_not.1 fun he => hs (Or.inl he)
    exact ⟨forall_update h.own (by rintro _ ⟨⟩; rfl),
      forall_update h.sound (by rintro _ ⟨⟩; exact SessionEntry.newEntry_sound),
      h.index.create hi he⟩
  | @refresh _ hash token now sid e e' cookies effects hh hi he hr =>
    have hs := h.sound sid e he
    have hidx : m.index token.hash = none := not_not.1 fun hi => hh (Or.inl hi)
    have hnew : token.hash ∉ e.allHashes := fun hx => by
      rw [← h.index.mem he, hidx] at hx; cases hx
    refine ⟨?_, ?_, ?_⟩
    · rw [commit_sessions]
      refine forall_update h.own ?_
      rintro _ ⟨⟩
      exact (SessionEntry.refresh_sid hr).trans (h.own sid e he)
    · rw [commit_sessions, commit_policy]
      refine forall_update h.sound ?_
      rintro _ ⟨⟩
      exact hs.refresh hnew hr
    · exact h.index.update he (SessionEntry.refresh_hashes hs.memory hr) hs.nodup
        fun g hg => by rw [SessionEntry.refresh_added hr g hg]; exact hidx
  | @kill _ op sid e now reason hk he ha =>
    exact ⟨forall_update h.own (by rintro _ ⟨⟩; exact h.own sid e he),
      forall_update h.sound (by rintro _ ⟨⟩; exact (h.sound sid e he).kill now),
      h.index.setEntry he rfl⟩
  | @touch _ order custody status sid e he hc =>
    exact ⟨forall_update h.own (by rintro _ ⟨⟩; exact h.own sid e he),
      forall_update h.sound (by rintro _ ⟨⟩; exact (h.sound sid e he).touch status),
      h.index.setEntry he rfl⟩
  | announce => exact ⟨h.own, h.sound, h.index⟩
  | @reap _ order now sid e he =>
    have hs := h.sound sid e he
    refine ⟨?_, ?_, ?_⟩
    · rw [reap_sessions]
      refine forall_update h.own ?_
      rintro _ ⟨⟩
      exact (SessionEntry.reap_sid ..).trans (h.own sid e he)
    · rw [reap_sessions, reap_policy]
      refine forall_update h.sound ?_
      rintro _ ⟨⟩
      exact hs.reap
    · exact h.index.update he (by simpa using SessionEntry.reap_hashes now hs.memory)
        hs.nodup (by simp)
  | @remove _ order now sid e he hc =>
    refine ⟨?_, ?_, h.index.remove he⟩
    · rw [forget_sessions]; exact forall_update h.own (fun _ h => by cases h)
    · rw [forget_sessions, forget_policy]; exact forall_update h.sound (fun _ h => by cases h)

end SessionMap

/-! ## Counting generations -/

/-- The session a command inserts a generation for. -/
def SessionCommand.generationOf : SessionCommand → Option Sid
  | insertGeneration sid .. => some sid
  | _ => none

namespace SessionMap

/-- The generations ever issued for a session: one by `create`, one by each mint. -/
def generations (m : SessionMap) (sid : Sid) : ℕ :=
  (m.queue.filterMap SessionCommand.generationOf).count sid

/-- The mints of a session. -/
def mints (m : SessionMap) (sid : Sid) : ℕ := m.generations sid - 1

@[simp] theorem filterMap_generationOf_new (e : SessionEntry) (now : Timestamp) :
    (newCommands e now).filterMap SessionCommand.generationOf =
      List.replicate e.gens.length e.sid := by
  simp [newCommands, SessionCommand.generationOf, List.filterMap_cons, List.filterMap_map,
    Function.comp_def]

@[simp] theorem filterMap_generationOf_commands (effects : IndexEffects) (sid : Sid) :
    (effects.commands sid).filterMap SessionCommand.generationOf =
      List.replicate effects.added.toList.length sid := by
  obtain ⟨added, superseded, purged⟩ := effects
  cases added <;> cases superseded <;> simp [IndexEffects.commands, SessionCommand.generationOf]

section
variable (m : SessionMap) (sid : Sid) (e : SessionEntry) (effects : IndexEffects)
  (now : Timestamp) (reason : KillReason) (custody : CustodyId) (sub : String)
  (token : SessionToken)

@[simp] theorem created_create :
    (m.create sid custody sub token now).1.created = m.created ++ [sid] := by
  simp [created, newEntry]

@[simp] theorem created_commit : (m.commit sid e effects).created = m.created := by
  simp [created, SessionCommand.creates]

@[simp] theorem created_kill : (m.kill sid e now reason).created = m.created := by
  simp [created, SessionCommand.creates]

@[simp] theorem created_reap : (m.reap sid e now).created = m.created := by simp [created]

@[simp] theorem created_forget : (m.forget sid e).created = m.created := by simp [created]

theorem generations_create (sid' : Sid) :
    (m.create sid custody sub token now).1.generations sid' =
      m.generations sid' + if sid = sid' then 1 else 0 := by
  simp [generations, newEntry, List.count_cons]

theorem generations_commit (sid' : Sid) : (m.commit sid e effects).generations sid' =
    m.generations sid' + if sid = sid' then effects.added.toList.length else 0 := by
  simp [generations, SessionCommand.generationOf, List.count_replicate, List.filterMap_cons]

@[simp] theorem generations_kill (sid' : Sid) :
    (m.kill sid e now reason).generations sid' = m.generations sid' := by
  simp [generations, SessionCommand.generationOf, List.filterMap_cons]

@[simp] theorem generations_reap (sid' : Sid) :
    (m.reap sid e now).generations sid' = m.generations sid' := by
  simp [generations]

@[simp] theorem generations_forget (sid' : Sid) :
    (m.forget sid e).generations sid' = m.generations sid' := by
  simp [generations]

end

/-- Sessions are counted from their `create` on, and numbered by the count. -/
structure Counted (m : SessionMap) : Prop where
  entry : ∀ sid e, m.sessions sid = some e → sid ∈ m.created
  generations : ∀ sid, m.generations sid ≠ 0 → sid ∈ m.created
  numbered : ∀ sid e, m.sessions sid = some e → e.Numbered (m.generations sid)

theorem counted_withDurability (policy : SessionPolicy) : (withDurability policy).Counted :=
  ⟨(fun _ _ h => by cases h),
    fun sid h => by simp [withDurability, SessionMap.generations] at h, fun _ _ h => by cases h⟩

/-- A move that brings no session and no generation. -/
theorem Counted.frame {m m' : SessionMap} (h : m.Counted)
    (hn : ∀ sid, m'.generations sid = m.generations sid) (hc : m'.created = m.created)
    (hs : ∀ sid e', m'.sessions sid = some e' → ∃ e, m.sessions sid = some e ∧
      e'.gens.Sublist e.gens ∧ e'.currentGen = e.currentGen) : m'.Counted := by
  refine ⟨fun sid e' he' => ?_, fun sid hk => ?_, fun sid e' he' => ?_⟩
  · obtain ⟨e, he, -⟩ := hs sid e' he'
    exact hc ▸ h.entry sid e he
  · exact hc ▸ h.generations sid (hn sid ▸ hk)
  · obtain ⟨e, he, hg, hc⟩ := hs sid e' he'
    rw [hn]
    exact (h.numbered sid e he).sublist hg hc

theorem Counted.move {op : Op} {m m' : SessionMap} (hw : m.Wf) (h : m.Counted)
    (hm : Move op m m') : m'.Counted := by
  have same : ∀ sid e, m.sessions sid = some e → ∃ e₀, m.sessions sid = some e₀ ∧
      e.gens.Sublist e₀.gens ∧ e.currentGen = e₀.currentGen :=
    fun sid e he => ⟨e, he, List.Sublist.refl _, rfl⟩
  cases hm with
  | @create _ sid custody sub token now hh hs =>
    have hno : m.generations sid = 0 := not_not.1 fun hn => hs (Or.inr (h.generations sid hn))
    have hc := created_create m sid now custody sub token
    have hn := generations_create m sid now custody sub token
    refine ⟨?_, fun sid' hk => ?_, ?_⟩
    · rw [create_sessions, hc]
      exact forall_update (fun sid' e he => List.mem_append_left _ (h.entry sid' e he))
        fun _ _ => List.mem_append_right _ (List.mem_singleton_self sid)
    · rw [hc, List.mem_append, List.mem_singleton]
      by_cases hs' : sid = sid'
      · exact Or.inr hs'.symm
      · rw [hn, if_neg hs'] at hk; exact Or.inl (h.generations sid' hk)
    · rw [create_sessions]
      refine forall_update (fun sid' e he => ?_) ?_
      · have hs' : sid ≠ sid' := fun hx => hs (Or.inl (by rw [hx, he]; exact Option.some_ne_none e))
        rw [hn, if_neg hs']
        exact h.numbered sid' e he
      · rintro _ ⟨⟩
        rw [hn, hno, if_pos rfl]
        exact ⟨rfl, [1], List.pairwise_singleton _ _, by simp, rfl⟩
  | @refresh _ hash token now sid e e' cookies effects hh hi he hr =>
    have hc := created_commit m sid e' effects
    have hn := generations_commit m sid e' effects
    refine ⟨?_, fun sid' hk => ?_, ?_⟩
    · rw [commit_sessions, hc]
      exact forall_update h.entry fun _ _ => h.entry sid e he
    · rw [hc]
      by_cases hs' : sid = sid'
      · exact hs' ▸ h.entry sid e he
      · rw [hn, if_neg hs'] at hk; exact h.generations sid' hk
    · intro sid' e₁ he₁
      rw [commit_sessions, Function.update_apply] at he₁
      rw [hn]
      by_cases hs' : sid' = sid
      · rw [if_pos hs'] at he₁
        cases he₁; subst hs'
        rw [if_pos rfl]
        exact (h.numbered _ e he).refresh (hw.sound _ e he).memory hr
      · rw [if_neg hs'] at he₁
        rw [if_neg (Ne.symm hs')]
        exact h.numbered sid' e₁ he₁
  | @kill _ op sid e now reason hk he ha =>
    exact h.frame (by simp) (by simp)
      (forall_update same (by rintro _ ⟨⟩; exact ⟨e, he, List.Sublist.refl _, rfl⟩))
  | @touch _ order custody status sid e he hc =>
    exact h.frame (fun _ => rfl) rfl
      (forall_update same (by rintro _ ⟨⟩; exact ⟨e, he, List.Sublist.refl _, rfl⟩))
  | announce => exact h.frame (fun _ => rfl) rfl same
  | @reap _ order now sid e he =>
    refine h.frame (by simp) (by simp) ?_
    rw [reap_sessions]
    refine forall_update same ?_
    rintro _ ⟨⟩
    exact ⟨e, he, SessionEntry.reap_sublist (hw.sound sid e he).memory,
      SessionEntry.reap_currentGen ..⟩
  | @remove _ order now sid e he hc =>
    refine h.frame (by simp) (by simp) ?_
    rw [forget_sessions]
    exact forall_update same (fun _ h => by cases h)

/-- No entry is over the cap. -/
def Capped (m : SessionMap) : Prop :=
  ∀ sid e, m.sessions sid = some e → e.gens.length ≤ m.policy.cap

theorem Capped.move {op : Op} {m m' : SessionMap} (hw : m.Wf) (h : m.Capped)
    (hm : Move op m m') : m'.Capped := by
  unfold Capped at h ⊢
  rw [hm.policy]
  cases hm with
  | create hh hs => exact forall_update h (by rintro _ ⟨⟩; exact m.policy.cap_pos)
  | @refresh _ hash token now sid e e' cookies effects hh hi he hr =>
    rw [commit_sessions]
    refine forall_update h ?_
    rintro _ ⟨⟩
    rcases (SessionEntry.refresh_cases hr).2 with ⟨_, _, _, rfl, _⟩ | ⟨_, rfl, _⟩
    · exact h sid e he
    · exact SessionEntry.mint_length_le (hw.sound sid e he).memory
  | @kill _ op sid e now reason hk he ha =>
    exact forall_update h (by rintro _ ⟨⟩; exact h sid e he)
  | @touch _ order custody status sid e he hc =>
    exact forall_update h (by rintro _ ⟨⟩; exact h sid e he)
  | announce => exact h
  | @reap _ order now sid e he =>
    rw [reap_sessions]
    refine forall_update h ?_
    rintro _ ⟨⟩
    exact SessionEntry.reap_length_le (hw.sound sid e he).memory
  | remove =>
    rw [forget_sessions]
    exact forall_update h (fun _ h => by cases h)

theorem mints_le (m : SessionMap) (sid : Sid) : m.mints sid ≤ m.queue.length :=
  (Nat.sub_le ..).trans (List.count_le_length.trans (List.length_filterMap_le ..))

end SessionMap

/-! ## The representation invariant -/

/-- A well-represented entry. -/
structure SessionEntry.Represented (e : SessionEntry) (policy : SessionPolicy) : Prop where
  nonempty : e.gens ≠ []
  increasing : e.gens.Pairwise fun g g' => g.genNo < g'.genNo
  last : e.gens.getLast? = some e.current
  currentGen : e.current.genNo = e.currentGen
  newest : ∀ g ∈ e.gens, g.supersededAt = none ↔ g = e.current
  live : e.gens.length ≤ max policy.maxLiveGens 1
  memory : e.retired.length ≤ policy.retiredMemory
  idle : e.idleExp ≤ e.absoluteExp
  token : ∀ token, e.currentToken = some token → token.hash = e.current.tokenHash
  nodup : e.allHashes.Nodup

theorem SessionEntry.Sound.represented {e : SessionEntry} {policy : SessionPolicy} {n : ℕ}
    (h : e.Sound policy) (hn : e.Numbered n) (hlt : n < 2 ^ 32)
    (hc : e.gens.length ≤ policy.cap) : e.Represented policy := by
  obtain ⟨⟨gs, g, hg⟩, hm, hi, hd⟩ := h
  have hcur : e.current = g := hg.current_eq
  refine ⟨?_, hn.increasing hlt, ?_, ?_, fun g' hg' => ?_, hc, hm, hi, fun t ht => ?_, hd⟩
  · simp [hg.gens]
  · simp [hg.gens, hcur]
  · rw [hcur, hg.genNo]
  · rw [hcur]
    refine ⟨fun hs => ?_, fun hx => hx ▸ hg.current⟩
    rw [hg.gens, List.mem_append, List.mem_singleton] at hg'
    exact hg'.resolve_left fun hx => hg.superseded g' hx hs
  · rw [hcur]; exact hg.token t ht

namespace SessionMap

/-- **The representation invariant of `SessionMap`**, whatever the clock says. -/
theorem representation_invariant (policy : SessionPolicy) (ops : List Op) (hf : Fresh ops)
    (hm : ∀ sid, (runs policy ops).mints sid < 2 ^ 32 - 1) :
    (∀ sid e, (runs policy ops).sessions sid = some e → e.sid = sid ∧ e.Represented policy) ∧
    (∀ sid sid' e e', (runs policy ops).sessions sid = some e →
      (runs policy ops).sessions sid' = some e' → sid ≠ sid' → e.allHashes.Disjoint e'.allHashes) ∧
    ∀ hash sid, (runs policy ops).index hash = some sid ↔
      ∃ e, (runs policy ops).sessions sid = some e ∧ hash ∈ e.allHashes := by
  obtain ⟨hw, hc, hl, hp⟩ : (runs policy ops).Wf ∧ (runs policy ops).Counted ∧
      (runs policy ops).Capped ∧ (runs policy ops).policy = policy := by
    refine fresh_invariant (fun m => m.Wf ∧ m.Counted ∧ m.Capped ∧ m.policy = policy)
      ⟨wf_withDurability policy, counted_withDurability policy, (fun _ _ h => by cases h), rfl⟩ ?_
      (hf.from policy)
    rintro op m m' ⟨hw, hc, hl, hp⟩ hm
    exact ⟨hw.move hm, hc.move hw hm, hl.move hw hm, hm.policy.trans hp⟩
  refine ⟨fun sid e he => ⟨hw.own sid e he, ?_⟩, ?_, hw.index⟩
  · have hn := hm sid
    rw [mints] at hn
    have hs := hw.sound sid e he
    have hle := hl sid e he
    rw [hp] at hs hle
    exact hs.represented (hc.numbered sid e he) (by omega) hle
  · exact fun sid sid' e e' he he' hs => hw.index.disjoint he he' hs

/-- At a concrete run: a login, a rotation within its grace, a sweep. -/
theorem representation_invariant_rotated :
    let ops := [Op.create ⟨"s"⟩ ⟨"c"⟩ "alice" .sample1 ⟨0⟩,
      .refresh SessionToken.sample1.hash .sample2 ⟨40⟩, .sweep [⟨"s"⟩] ⟨50⟩]
    ((runs {} ops).sessions ⟨"s"⟩).any (fun e => e.gens.length = 2) = true ∧
      ∀ sid e, (runs {} ops).sessions sid = some e → e.sid = sid ∧ e.Represented {} :=
  ⟨by decide, (representation_invariant {} _ (by decide) fun sid =>
    (mints_le _ sid).trans_lt (by decide)).1⟩

end SessionMap

end SessionBroker
