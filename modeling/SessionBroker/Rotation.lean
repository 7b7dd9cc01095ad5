/-
  Rotation invalidates nothing but what time or the cap ends.

  * `lastEntry` is a session's entry as it last stood in the map, so that the
    session's expiry can be told after a sweep has forgotten it;
  * `SupersededIn`: generations are superseded at readings of the clock;
  * `Lapsed`: what stopped authenticating while its session went on;
  * `rotation_exact`.
-/
import SessionBroker.Window

namespace SessionBroker

open Relation Runs

namespace SessionMap

/-! ## The entry as it last stood -/

/-- The entry a session had when it was last in the map. -/
def lastEntry (policy : SessionPolicy) (ops : List Op) (sid : Sid) : Option SessionEntry :=
  (ops.inits.filterMap fun before => (runs policy before).sessions sid).getLast?

theorem lastEntry_concat (policy : SessionPolicy) (ops : List Op) (op : Op) (sid : Sid) :
    lastEntry policy (ops ++ [op]) sid =
      ((runs policy (ops ++ [op])).sessions sid).or (lastEntry policy ops sid) := by
  have hinits : (ops ++ [op]).inits = ops.inits ++ [ops ++ [op]] := by
    rw [List.inits_append]
    simp
  rw [lastEntry, hinits, List.filterMap_append]
  cases he : (runs policy (ops ++ [op])).sessions sid with
  | none => simp [he, lastEntry]
  | some e => simp [he]

/-- Within one call, a session is there, untouched by a sweep as far as its
    collection goes, or was collected by it. -/
def Swept (op : Op) (sid : Sid) (e : SessionEntry) (m : SessionMap) : Prop :=
  (∃ e', m.sessions sid = some e' ∧
    ∀ order now, op = .sweep order now → e'.collectible now m.policy = e.collectible now m.policy) ∨
  m.sessions sid = none ∧ ∃ order now, op = .sweep order now ∧ e.collectible now m.policy

theorem Swept.move {op : Op} {sid : Sid} {e : SessionEntry} {m m' : SessionMap}
    (h : Swept op sid e m) (hm : Move op m m') : Swept op sid e m' := by
  -- an entry replaced by a call other than a sweep
  have replaced : ∀ {sid' : Sid} {e₂ : SessionEntry}, (∀ order now, op ≠ .sweep order now) →
      m'.sessions = Function.update m.sessions sid' (some e₂) → Swept op sid e m' := by
    intro sid' e₂ hop hs
    rcases h with ⟨e', he', -⟩ | ⟨-, order, now, rfl, -⟩
    · left
      simp only [hs, Function.update_apply]
      split_ifs
      · exact ⟨e₂, rfl, fun order now hx => absurd hx (hop order now)⟩
      · exact ⟨e', he', fun order now hx => absurd hx (hop order now)⟩
    · exact absurd rfl (hop order now)
  cases hm with
  | create => exact replaced (fun _ _ h => by cases h) rfl
  | refresh => exact replaced (fun _ _ h => by cases h) (commit_sessions ..)
  | @kill _ op sid' e₁ now reason hk he ha =>
    refine replaced (fun order now hx => ?_) rfl
    rw [hx] at hk
    cases hk
  | touch => exact replaced (fun _ _ h => by cases h) rfl
  | announce => exact h
  | @reap _ order now sid' e₁ he =>
    unfold Swept
    rw [reap_policy, reap_sessions, Function.update_apply]
    rcases h with ⟨e', he', hc⟩ | ⟨hn, hx⟩
    · left
      split_ifs with hs
      · subst hs
        rw [he'] at he
        cases he
        refine ⟨_, rfl, fun order' now' hx => ?_⟩
        rw [← hc order' now' hx]
        simp [SessionEntry.collectible, SessionEntry.sessionExpiry]
      · exact ⟨e', he', hc⟩
    · right
      have hs : sid ≠ sid' := fun hs => by
        subst hs
        rw [hn] at he
        cases he
      rw [if_neg hs]
      exact ⟨hn, hx⟩
  | @remove _ order now sid' e₁ he hcol =>
    unfold Swept
    rw [forget_policy, forget_sessions, Function.update_apply]
    rcases h with ⟨e', he', hc⟩ | ⟨hn, hx⟩
    · by_cases hs : sid = sid'
      · right
        subst hs
        rw [he'] at he
        cases he
        exact ⟨if_pos rfl, order, now, rfl, hc order now rfl ▸ hcol⟩
      · left
        rw [if_neg hs]
        exact ⟨e', he', hc⟩
    · right
      refine ⟨?_, hx⟩
      split_ifs
      · rfl
      · exact hn

/-- A call removes only what it collects. -/
theorem collectible_of_removed {m : SessionMap} {op : Op} (hf : op.FreshIn m) {sid : Sid}
    {e : SessionEntry} (he : m.sessions sid = some e) (hgone : (m.step op).sessions sid = none) :
    ∃ now, op.now = some now ∧ e.collectible now m.policy := by
  have hmoves := step_moves hf
  have hpol : (m.step op).policy = m.policy :=
    moves_invariant (·.policy = m.policy) (fun _ _ h hm => hm.policy.trans h) hmoves rfl
  have hswept : Swept op sid e (m.step op) :=
    moves_invariant (Swept op sid e) (fun _ _ h hm => h.move hm) hmoves
      (Or.inl ⟨e, he, fun _ _ _ => rfl⟩)
  rcases hswept with ⟨e', he', -⟩ | ⟨-, order, now, rfl, hc⟩
  · rw [hgone] at he'
    cases he'
  · exact ⟨now, rfl, hpol ▸ hc⟩

/-- The last entry is the one in the map, or one that has expired. -/
structure LastKnown (policy : SessionPolicy) (ops : List Op) (now : Timestamp) (m : SessionMap) :
    Prop where
  present : ∀ sid e, m.sessions sid = some e → lastEntry policy ops sid = some e
  gone : ∀ sid ∈ m.created, m.sessions sid = none →
    ∃ e, lastEntry policy ops sid = some e ∧ e.sessionExpiry now policy ≠ none

/-- A session on record was there before, or the call just created it. -/
theorem created_step {m : SessionMap} {op : Op} (hf : op.FreshIn m) {sid : Sid}
    (hs : sid ∈ (m.step op).created) : sid ∈ m.created ∨ (m.step op).sessions sid ≠ none := by
  cases op with
  | create sid' custody sub token now =>
    have hc : (m.step (.create sid' custody sub token now)).created = m.created ++ [sid'] :=
      created_create ..
    rw [hc, List.mem_append, List.mem_singleton] at hs
    refine hs.imp_right fun hx => ?_
    subst hx
    have hsessions : (m.step (.create sid custody sub token now)).sessions =
        Function.update m.sessions sid _ := create_sessions ..
    rw [hsessions, Function.update_self]
    exact Option.some_ne_none _
  | _ =>
    refine Or.inl (moves_invariant (fun m' => sid ∈ m'.created → sid ∈ m.created)
      (fun m₁ m₂ hi hm hx => hi ?_) (step_moves hf) id hs)
    cases hm <;> simpa [SessionMap.created, SessionCommand.creates, List.filterMap_cons] using hx

theorem lastKnown_run (policy : SessionPolicy) {ops : List Op} (hf : Fresh ops)
    (hn : Nondecreasing Op.now ops) {now : Timestamp} (ht : NotBefore Op.now ops now) :
    LastKnown policy ops now (runs policy ops) := by
  have hrun : (fun ops now m => LastKnown policy ops now m) ops now
      (run step (withDurability policy) ops) := by
    refine timed_invariant Fresh (fun ops now m => LastKnown policy ops now m)
      (fun _ _ h => h.of_append) (fun t => ?_) ?_ ?_ ops hf hn now ht
    · exact ⟨fun sid e he => by simp [withDurability] at he,
        fun sid hs => by simp [withDurability, created] at hs⟩
    · exact fun ops t t' m htt h => ⟨h.present, fun sid hs hx =>
        (h.gone sid hs hx).imp fun e he => ⟨he.1, SessionEntry.sessionExpiry_mono htt he.2⟩⟩
    · intro ops op t hf hop h
      have hfresh := (hf.from policy).freshIn
      have hpol := (kept_run policy hf.of_append).policy
      have hlast := lastEntry_concat policy ops op
      simp only [runs, run_concat] at hlast hpol
      refine ⟨fun sid e he => by rw [hlast, he]; rfl, fun sid hs hx => ?_⟩
      rw [hlast, hx, Option.none_or]
      cases he : (run step (withDurability policy) ops).sessions sid with
      | some e =>
        refine ⟨e, h.present sid e he, ?_⟩
        obtain ⟨u, hu, hc⟩ := collectible_of_removed hfresh he hx
        rw [hpol] at hc
        exact hop u hu ▸ SessionEntry.expired_of_collectible hc
      | none =>
        exact h.gone sid ((created_step hfresh hs).resolve_right fun hy => hy hx) he
  exact hrun

/-! ## What authenticates -/

theorem Wf.resolve_authenticates {m : SessionMap} (hw : m.Wf) {hash : TokenHash} {t : Timestamp} :
    (m.resolve hash t).authenticates = true ↔ ∃ sid e, m.sessions sid = some e ∧
      e.sessionExpiry t m.policy = none ∧
      ∃ g ∈ e.gens, g.tokenHash = hash ∧ t < g.resourceValidUntil m.policy.graceSecs :=
  hw.index.resolve_authenticates fun sid e he => (hw.sound sid e he).gens_nodup

/-- A hash issued for a session is held by no other. -/
theorem Kept.holder {policy : SessionPolicy} {m : SessionMap} (hk : m.Kept policy) {sid sid' : Sid}
    {e : SessionEntry} {g : Generation} (hh : g.tokenHash ∈ m.issuedTo sid)
    (he : m.sessions sid' = some e) (hg : g ∈ e.gens) : sid' = sid :=
  hk.killings.owner sid _ hh sid' <|
    (hk.wf.index.mem he).2 (List.mem_append_left _ (List.mem_map_of_mem hg))

/-! ## Superseded at readings of the clock -/

/-- Generations are superseded only at times in `P`. -/
def SupersededIn (P : Timestamp → Prop) (m : SessionMap) : Prop :=
  ∀ sid, ∀ g ∈ m.history sid, ∀ s ∈ g.supersededAt, P s

theorem SupersededIn.move {P : Timestamp → Prop} {op : Op} {m m' : SessionMap}
    (h : m.SupersededIn P) (hop : ∀ u, op.now = some u → P u) (hm : Move op m m') :
    m'.SupersededIn P := by
  cases hm with
  | @create _ sid custody sub token now hh hs =>
    intro s g hg
    rw [history_create, List.mem_append] at hg
    rcases hg with hg | hg
    · exact h s g hg
    · split_ifs at hg
      · rw [newEntry, List.mem_singleton] at hg
        rw [hg]
        exact fun _ h => by cases h
      · cases hg
  | @refresh _ hash token now sid e e' cookies effects hh hi he hr =>
    have hnone : ∀ g ∈ effects.added, g.supersededAt = none := fun g hg => by
      rw [SessionEntry.refresh_added_eq hr g hg]
      rfl
    have hsup : ∀ p ∈ effects.superseded, P p.2 := by
      rcases (SessionEntry.refresh_cases hr).2 with ⟨_, _, _, rfl, rfl, _⟩ | ⟨_, rfl, rfl, _⟩
      · exact fun _ h => by cases h
      · intro p hp
        simp only [SessionEntry.mint_eq, Option.mem_def, Option.map_eq_some_iff] at hp
        obtain ⟨_, -, rfl⟩ := hp
        exact hop now rfl
    intro s g hg
    rw [history_commit _ _ _ _ _ hnone] at hg
    obtain ⟨g₀, hg₀, rfl⟩ := List.mem_map.1 hg
    have hold : ∀ u ∈ g₀.supersededAt, P u := by
      rcases List.mem_append.1 hg₀ with hg₀ | hg₀
      · exact h s g₀ hg₀
      · split_ifs at hg₀
        · rw [hnone g₀ (by simpa using hg₀)]
          exact fun _ h => by cases h
        · cases hg₀
    unfold Generation.superseded
    split
    · exact hold
    · rename_i p hp
      split_ifs
      · rintro _ ⟨⟩
        exact hsup p hp
      · exact hold
  | kill => exact fun s g hg => h s g (by rwa [history_kill] at hg)
  | touch => exact h
  | announce => exact h
  | reap => exact fun s g hg => h s g (by rwa [history_reap] at hg)
  | remove => exact fun s g hg => h s g (by rwa [history_forget] at hg)

theorem supersededIn_run (policy : SessionPolicy) {ops : List Op} (hf : Fresh ops)
    {P : Timestamp → Prop} (hp : ∀ u ∈ ops.filterMap Op.now, P u) :
    (runs policy ops).SupersededIn P := by
  have hstart : (withDurability policy).SupersededIn P := by
    simp [SupersededIn, history, withDurability]
  refine run_moves_invariant (fun ops => Fresh ops ∧ ∀ u ∈ ops.filterMap Op.now, P u)
    (SupersededIn P) (fun as a h => ⟨h.1.of_append, fun u hu => h.2 u ?_⟩)
    (fun as a h => step_moves (h.1.from policy).freshIn) hstart (fun as a m m' h hi hm => hi.move ?_ hm)
    ops ⟨hf, hp⟩
  · rw [List.filterMap_append]
    exact List.mem_append_left _ hu
  · intro u hu
    refine h.2 u ?_
    rw [List.filterMap_append]
    exact List.mem_append_right _ (by simp [hu])

/-! ## What stopped -/

/-- A hash no generation of the map can authenticate at `t` or later. -/
structure Lapsed (hash : TokenHash) (t : Timestamp) (m : SessionMap) : Prop where
  known : hash ∈ m.issued
  spent : ∀ sid e, m.sessions sid = some e → ∀ g ∈ e.gens, g.tokenHash = hash →
    g.resourceValidUntil m.policy.graceSecs ≤ t

theorem Lapsed.move {op : Op} {hash : TokenHash} {t : Timestamp} {m m' : SessionMap} (hw : m.Wf)
    (h : m.Lapsed hash t) (hm : Move op m m') : m'.Lapsed hash t := by
  refine ⟨hm.issued.subset h.known, ?_⟩
  rw [hm.policy]
  cases hm with
  | @create _ sid custody sub token now hh hs =>
    rw [create_sessions]
    refine forall_update h.spent ?_
    rintro _ ⟨⟩ g hg rfl
    rw [newEntry, List.mem_singleton] at hg
    refine absurd (Or.inr ?_) hh
    rw [hg] at h
    exact h.known
  | @refresh _ hash' token now sid e e' cookies effects hh hi he hr =>
    rw [commit_sessions]
    refine forall_update h.spent ?_
    rintro _ ⟨⟩ g hg hgh
    rcases (SessionEntry.refresh_cases hr).2 with ⟨_, _, _, rfl, rfl, _⟩ | ⟨_, rfl, rfl, _⟩
    · exact h.spent sid e he g hg hgh
    · have hg : g ∈ (e.pushed token now m.policy).gens :=
        (SessionEntry.reap_sublist (e := e.pushed token now m.policy)
          (hw.sound sid e he).memory).subset hg
      obtain ⟨gs, cur, hends⟩ := (hw.sound sid e he).ends
      simp only [SessionEntry.pushed, hends.gens, supersedeLast_append, List.mem_append,
        List.mem_singleton] at hg
      have hgens : ∀ x, x ∈ gs ∨ x = cur → x ∈ e.gens := fun x hx => by
        rw [hends.gens]
        simpa using hx
      rcases hg with (hg | hg) | hg
      · exact h.spent sid e he g (hgens g (Or.inl hg)) hgh
      · -- superseding a generation only brings its end forward
        have hcur := h.spent sid e he cur (hgens cur (Or.inr rfl)) (by rw [← hgh, hg])
        rw [Generation.resourceValidUntil, hends.current] at hcur
        refine (g.resourceValidUntil_le _).trans ?_
        rw [hg]
        exact hcur
      · refine absurd (Or.inr ?_) hh
        have htok : token.hash = hash := by rw [← hgh, hg, SessionEntry.minted_tokenHash]
        rw [htok]
        exact h.known
  | @kill _ op sid e now reason hk he ha =>
    exact forall_update h.spent (by rintro _ ⟨⟩; exact h.spent sid e he)
  | @touch _ order custody status sid e he hc =>
    exact forall_update h.spent (by rintro _ ⟨⟩; exact h.spent sid e he)
  | announce => exact h.spent
  | @reap _ order now sid e he =>
    rw [reap_sessions]
    refine forall_update h.spent ?_
    rintro _ ⟨⟩ g hg
    exact h.spent sid e he g ((SessionEntry.reap_sublist (hw.sound sid e he).memory).subset hg)
  | @remove _ order now sid e he hc =>
    rw [forget_sessions]
    exact forall_update h.spent (fun _ h => by cases h)

theorem Lapsed.not_authenticates {hash : TokenHash} {t t' : Timestamp} {m : SessionMap}
    (hw : m.Wf) (h : m.Lapsed hash t) (ht : t ≤ t') : (m.resolve hash t').authenticates = false := by
  rw [Bool.eq_false_iff]
  intro ha
  obtain ⟨sid, e, he, -, g, hg, hh, hv⟩ := hw.resolve_authenticates.1 ha
  exact absurd (hv.trans_le (h.spent sid e he g hg hh)) (not_lt.2 ht)

/-! ## Exactly -/

/-- While within `i64` arithmetic a superseded generation ends with its TTL or
    its grace, whichever runs out first. -/
theorem valid_iff {g : Generation} {graceSecs : ℕ} {t : Timestamp} (hgr : graceSecs < 2 ^ 62)
    (hs : ∀ s ∈ g.supersededAt, 0 ≤ s.secs ∧ s.secs < 2 ^ 62) :
    t < g.resourceValidUntil graceSecs ↔
      t < g.activeUntil ∧ ∀ s, g.supersededAt = some s → t.secs < s.secs + graceSecs := by
  unfold Generation.resourceValidUntil
  cases h : g.supersededAt with
  | none => simp
  | some s =>
    obtain ⟨h₀, h₁⟩ := hs s h
    have hx := Timestamp.plusSecs_exact h₀ h₁ hgr
    simp only [lt_min_iff, Option.some.injEq, forall_eq']
    rw [show t < s.plusSecs graceSecs ↔ t.secs < (s.plusSecs graceSecs).secs from Iff.rfl, hx]

/-- A generation is still in the window, or it lapsed or was pushed out. -/
theorem window_holds {e : SessionEntry} {policy : SessionPolicy} {t : Timestamp} {k : ℕ}
    {pre post : List Generation} {g : Generation}
    (hn : ((pre ++ g :: post).map (·.tokenHash)).Nodup) (hcap : e.gens.length ≤ policy.cap)
    (hwin : e.Window policy t (pre ++ g :: post) k) :
    (g ∈ e.gens ∧ t < g.resourceValidUntil policy.graceSecs) ↔
      t < g.resourceValidUntil policy.graceSecs ∧ post.length ≤ policy.cap - 1 := by
  have hi : (pre ++ g :: post)[pre.length]? = some g := by simp
  have hlen : (pre ++ g :: post).length = pre.length + post.length + 1 := by
    simp only [List.length_append, List.length_cons]
    omega
  by_cases hk : pre.length < k
  · have hout : g ∉ e.gens := by
      have hnd : ((pre ++ g :: post).map (·.tokenHash)).Nodup := hn
      rw [← List.take_append_drop k (pre ++ g :: post), List.map_append,
        List.nodup_append] at hnd
      intro hg
      have htake : g ∈ (pre ++ g :: post).take k := by
        refine List.mem_of_getElem? (i := pre.length) ?_
        rw [List.getElem?_take, if_pos hk, hi]
      exact hnd.2.2 _ (List.mem_map_of_mem htake) _
        (List.mem_map_of_mem (hwin.gens ▸ hg)) rfl
    constructor
    · exact fun h => absurd h.1 hout
    · rintro ⟨hv, hp⟩
      rcases hwin.spent _ g hi hk with hx | hx
      · exact absurd hv (not_lt.2 hx)
      · have := policy.cap_pos
        omega
  · have hin : g ∈ e.gens := by
      rw [hwin.gens]
      refine List.mem_of_getElem? (i := pre.length - k) ?_
      rw [List.getElem?_drop, ← hi]
      congr 1
      omega
    have hpost : post.length ≤ policy.cap - 1 := by
      rw [hwin.gens, List.length_drop, hlen] at hcap
      omega
    exact ⟨fun h => ⟨h.2, hpost⟩, fun h => ⟨hin, h.1⟩⟩

theorem lapsed_of_stopped {policy : SessionPolicy} {ops : List Op} (hf : Fresh ops)
    (hn : Nondecreasing Op.now ops) {sid : Sid} {e : SessionEntry} {hash : TokenHash}
    {t : Timestamp} (ht : NotBefore Op.now ops t) (hh : hash ∈ (runs policy ops).issuedTo sid)
    (hlast : lastEntry policy ops sid = some e) (hx : e.sessionExpiry t policy = none)
    (hstop : ((runs policy ops).resolve hash t).authenticates = false) :
    (runs policy ops).Lapsed hash t := by
  have hk := kept_run policy hf
  have hknown := lastKnown_run policy hf hn ht
  have hmem : hash ∈ (runs policy ops).issued := (issuedTo_sublist ..).subset hh
  refine ⟨hmem, fun sid' e' he' g hg hgh => ?_⟩
  obtain rfl := hk.holder (hgh ▸ hh) he' hg
  have heq : e' = e := Option.some.inj ((hknown.present _ e' he').symm.trans hlast)
  by_contra hv
  have ha : ((runs policy ops).resolve hash t).authenticates = true := by
    rw [hk.wf.resolve_authenticates]
    refine ⟨_, e', he', ?_, g, hg, hgh, not_le.1 hv⟩
    rw [heq, hk.policy]
    exact hx
  rw [hstop] at ha
  cases ha

/-- **Rotation invalidates nothing** but what TTL, grace or the cap ends, and
    what has ended stays so. -/
theorem rotation_exact (policy : SessionPolicy) (ops : List Op)
    (hgrace : policy.graceSecs < 2 ^ 62) (hf : Fresh ops) (hn : Nondecreasing Op.now ops)
    (htimes : ∀ u ∈ ops.filterMap Op.now, 0 ≤ u.secs ∧ u.secs < 2 ^ 62) (sid : Sid)
    (hmints : (runs policy ops).mints sid < 2 ^ 32 - 1) :
    (∀ pre g post, (runs policy ops).history sid = pre ++ g :: post →
      ∀ t, NotBefore Op.now ops t → ∃ e, lastEntry policy ops sid = some e ∧
        (((runs policy ops).resolve g.tokenHash t).authenticates = true ↔
          e.status = .alive ∧ t < e.idleExp ∧ t < e.absoluteExp ∧
          ¬ (e.custodyStatus = .dead ∧ policy.onUpstreamRevoked = .kill) ∧
          t < g.activeUntil ∧
          (∀ s, g.supersededAt = some s → t.secs < s.secs + policy.graceSecs) ∧
          post.length ≤ max policy.maxLiveGens 1 - 1)) ∧
    ∀ hash ∈ (runs policy ops).issuedTo sid, ∀ t, NotBefore Op.now ops t →
      ∀ e, lastEntry policy ops sid = some e → e.sessionExpiry t policy = none →
        ((runs policy ops).resolve hash t).authenticates = false →
        ∀ later, Fresh (ops ++ later) → ∀ t', t ≤ t' →
          ((runs policy (ops ++ later)).resolve hash t').authenticates = false := by
  have hk := kept_run policy hf
  constructor
  · intro pre g post hhist t ht
    have htr := tracked_run policy hf hn ht
    have hknown := lastKnown_run policy hf hn ht
    have hsup := supersededIn_run policy hf htimes
    have hgmem : g ∈ (runs policy ops).history sid := by simp [hhist]
    have hgto : g.tokenHash ∈ (runs policy ops).issuedTo sid := by
      rw [← map_hash_history]
      exact List.mem_map_of_mem hgmem
    have hnd : ((pre ++ g :: post).map (·.tokenHash)).Nodup := by
      rw [← hhist, map_hash_history]
      exact hk.killings.issued.sublist (issuedTo_sublist ..)
    have hlen : (runs policy ops).generations sid = pre.length + post.length + 1 := by
      rw [← length_history, hhist]
      simp only [List.length_append, List.length_cons]
      omega
    have hvalid := valid_iff (t := t) hgrace (hsup sid g hgmem)
    cases he : (runs policy ops).sessions sid with
    | none =>
      have hcreated : sid ∈ (runs policy ops).created :=
        hk.counted.generations sid (by omega)
      obtain ⟨e, hlast, hx⟩ := hknown.gone sid hcreated he
      refine ⟨e, hlast, ?_⟩
      constructor
      · intro ha
        obtain ⟨sid', e', he', -, g', hg', hgh, -⟩ := hk.wf.resolve_authenticates.1 ha
        obtain rfl := hk.holder (hgh ▸ hgto) he' hg'
        rw [he] at he'
        cases he'
      · rintro ⟨h₁, h₂, h₃, h₄, -⟩
        exact absurd (SessionEntry.sessionExpiry_eq_none.2 ⟨h₁, h₃, h₂, h₄⟩) hx
    | some e =>
      refine ⟨e, hknown.present sid e he, ?_⟩
      have hw : NoWrap (runs policy ops).policy ((runs policy ops).history sid).length := by
        left
        rw [length_history]
        unfold mints at hmints
        omega
      obtain ⟨k, hwin⟩ := htr.window sid e he hw
      have hcap := hk.capped sid e he
      rw [hhist, hk.policy] at hwin
      rw [hk.policy] at hcap
      have hwindow := window_holds hnd hcap hwin
      -- the only generation with this hash is `g`
      have hone : ((runs policy ops).resolve g.tokenHash t).authenticates = true ↔
          e.sessionExpiry t policy = none ∧ g ∈ e.gens ∧
            t < g.resourceValidUntil policy.graceSecs := by
        rw [hk.wf.resolve_authenticates, hk.policy]
        constructor
        · rintro ⟨sid', e', he', hx, g', hg', hgh, hv⟩
          obtain rfl := hk.holder (hgh ▸ hgto) he' hg'
          rw [he] at he'
          cases he'
          have hg'mem : g' ∈ pre ++ g :: post := hwin.gens ▸ hg' |> List.mem_of_mem_drop
          have hgg : g' = g :=
            List.inj_on_of_nodup_map hnd hg'mem (hhist ▸ hgmem) hgh
          exact ⟨hx, hgg ▸ hg', hgg ▸ hv⟩
        · rintro ⟨hx, hg, hv⟩
          exact ⟨sid, e, he, hx, g, hg, rfl, hv⟩
      rw [hone, hwindow, SessionEntry.sessionExpiry_eq_none, hvalid, SessionPolicy.cap]
      constructor
      · rintro ⟨⟨h₁, h₂, h₃, h₄⟩, ⟨h₅, h₆⟩, h₇⟩
        exact ⟨h₁, h₃, h₂, h₄, h₅, h₆, h₇⟩
      · rintro ⟨h₁, h₂, h₃, h₄, h₅, h₆, h₇⟩
        exact ⟨⟨h₁, h₃, h₂, h₄⟩, ⟨h₅, h₆⟩, h₇⟩
  · intro hash hh t ht e hlast hx hstop later hlater t' htt
    have hstart := lapsed_of_stopped hf hn ht hh hlast hx hstop
    have hlater := fresh_stable (fun m => m.Kept policy ∧ m.Lapsed hash t) ⟨hk, hstart⟩
      (fun op m m' h hm => ⟨h.1.move hm, h.2.move h.1.wf hm⟩) (hlater.from policy)
    exact hlater.2.not_authenticates hlater.1.wf htt

/-- At a concrete run: the replaced cookie within its grace. -/
theorem rotation_exact_replaced :
    let ops := [Op.create ⟨"s"⟩ ⟨"c"⟩ "alice" .sample1 ⟨0⟩,
      .refresh SessionToken.sample1.hash .sample2 ⟨100⟩]
    ((runs {} ops).resolve SessionToken.sample1.hash ⟨159⟩).authenticates = true ∧
      ∃ e, lastEntry {} ops ⟨"s"⟩ = some e ∧ (⟨159⟩ : Timestamp) < e.idleExp := by
  intro ops
  have ha : ((runs {} ops).resolve SessionToken.sample1.hash ⟨159⟩).authenticates = true := by
    decide
  obtain ⟨e, he, hiff⟩ := (rotation_exact {} ops (by decide) (by decide) (by decide) (by decide)
    ⟨"s"⟩ (by decide)).1 [] ⟨1, SessionToken.sample1.hash, ⟨0⟩, ⟨600⟩, some ⟨100⟩⟩
    [⟨2, SessionToken.sample2.hash, ⟨100⟩, ⟨700⟩, none⟩] (by decide) ⟨159⟩ (by decide)
  exact ⟨ha, e, he, (hiff.1 ha).2.1⟩

end SessionMap

end SessionBroker
