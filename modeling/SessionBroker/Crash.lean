/-
  What a crash leaves behind.

  The writer commits a prefix of the queue.  The commands of one refresh are
  not one transaction, so the prefix may end among them.

  * `Tables.Whole`: every stored session has no generation yet, or ends in its
    current one; `whole_of_prefix` for every prefix that ends between calls, or
    within one that is not a refresh;
  * `InOrder`: what is expected of a session after recovery;
  * `crash_consistent_iff`.
-/
import SessionBroker.Restart

namespace SessionBroker

open Relation Runs

/-! ## Whole tables -/

/-- The generations of a session that the commands insert. -/
def issuedIn (cmds : List SessionCommand) (sid : Sid) : ℕ :=
  (cmds.filterMap SessionCommand.generationOf).count sid

/-- Every stored session has its generations in order, or none yet. -/
structure Tables.Whole (t : Tables) (n : Sid → ℕ) : Prop where
  keyed : t.Keyed
  whole : ∀ r ∈ t.session, t.gensOf r.row.sid = [] ∨
    r.row.Whole (n r.row.sid) (t.gensOf r.row.sid)

theorem Synced.tables_whole {m : SessionMap} {t : Tables} (h : Synced m t) :
    t.Whole m.generations :=
  ⟨h.keyed, fun r hr => Or.inr (h.whole r hr)⟩

/-- Within a login: the session row without its generation. -/
theorem Tables.Whole.insertSession {t t' : Tables} {n : Sid → ℕ} {row : SessionRow}
    (h : t.Whole n) (hg : t.gensOf row.sid = []) (ha : t.insertSession row = some t') :
    t'.Whole n := by
  refine ⟨h.keyed.applyCommand (c := .insertSession row) ha, fun r hr => ?_⟩
  unfold Tables.insertSession at ha
  split_ifs at ha with hs
  obtain ⟨c, -, rfl⟩ := Option.map_eq_some_iff.1 ha
  rcases List.mem_append.1 hr with hr | hr
  · exact h.whole r hr
  · rw [List.mem_singleton.1 hr]
    exact Or.inl hg

/-- Within a sweep: some of the rows a reap forgets. -/
theorem Synced.delete {m : SessionMap} {t : Tables} {sid : Sid} {e : SessionEntry}
    (h : Synced m t) (hw : m.Wf) (he : m.sessions sid = some e) {hashes : List TokenHash}
    (hsub : ∀ hash ∈ hashes, hash ∈ e.allHashes) (hcur : e.current.tokenHash ∉ hashes) :
    ∃ t', t.applyAll (hashes.map .deleteGeneration) = some t' ∧ t'.Whole m.generations := by
  obtain ⟨r, hr, hm, hb⟩ := h.entry sid e he
  have hrs : r.row.sid = sid := hm.sid.trans (hw.own sid e he)
  have happ : t.applyAll (IndexEffects.commands { purged := hashes } sid) =
      some (t.stored { purged := hashes } sid) :=
    Tables.applyAll_commands (h.hasRow hw he) (by simp)
  refine ⟨_, happ, h.keyed.applyAll happ, fun r₁ hr₁ => ?_⟩
  have hr₁ : r₁ ∈ t.session := hr₁
  right
  by_cases hx : r₁.row.sid = sid
  · have hgens : (t.stored { purged := hashes } sid).gensOf sid =
        (t.gensOf sid).filter fun g => g.tokenHash ∉ hashes := by
      rw [Tables.gensOf_stored (by simp)]
      simp [IndexEffects.generations]
    obtain rfl : r₁ = r := List.inj_on_of_nodup_map h.keyed.session hr₁ hr (hx.trans hrs.symm)
    have hwh := h.whole r₁ hr₁
    rw [hx] at hwh ⊢
    rw [hgens]
    refine hwh.delete fun g hg hn => ?_
    rw [hb.unsuperseded (hw.sound sid e he) hwh hg hn]
    exact hcur
  · have hsame : (t.stored { purged := hashes } sid).gensOf r₁.row.sid = t.gensOf r₁.row.sid :=
      h.stored_of_ne hb hx (by simp) fun hash hh => Or.inl (hsub hash hh)
    rw [hsame]
    exact h.whole r₁ hr₁

/-- **Within a call** that is not a refresh, every cut leaves whole tables. -/
theorem Synced.cut {op : Op} {m m' : SessionMap} {t t₀ : Tables} (h : Synced m t) (hw : m.Wf)
    (hcnt : m.Counted) (hc : op.CustodyOnFile t.custody) (ha : t₀.applyAll m.queue = some t)
    (hr : ∀ hash token now, op ≠ .refresh hash token now) (hm : Move op m m')
    {p : List SessionCommand} (h₁ : m.queue <+: p) (h₂ : p <+: m'.queue) :
    ∃ t', t₀.applyAll p = some t' ∧ t'.Whole (issuedIn p) := by
  obtain ⟨cmds, t', hq, ha', -, hs'⟩ := h.move hw hcnt hm hc
  obtain ⟨q, rfl⟩ := h₁
  rw [hq, List.prefix_append_right_inj] at h₂
  have hstart : t₀.applyAll (m.queue ++ q) = t.applyAll q := by
    rw [Tables.applyAll_append, ha]
    rfl
  rw [hstart]
  have hempty : q = [] → ∃ t', t.applyAll q = some t' ∧ t'.Whole (issuedIn (m.queue ++ q)) := by
    rintro rfl
    rw [List.append_nil]
    exact ⟨t, rfl, h.tables_whole⟩
  have hfull : q = cmds → ∃ t', t.applyAll q = some t' ∧ t'.Whole (issuedIn (m.queue ++ q)) := by
    rintro rfl
    rw [← hq]
    exact ⟨t', ha', hs'.tables_whole⟩
  cases hm with
  | @create _ sid custody sub token now hh hs =>
    set e := SessionMap.newEntry m.policy sid custody sub token now
    have hcmds : cmds = SessionMap.newCommands e now :=
      (List.append_cancel_left (hq.symm.trans (SessionMap.create_queue ..)))
    subst hcmds
    cases q with
    | nil => exact hempty rfl
    | cons c q =>
      obtain ⟨rfl, hq'⟩ := List.cons_prefix_cons.1 h₂
      cases q with
      | nil =>
        -- the session row alone
        obtain ⟨t₁, h₁, -⟩ := Option.bind_eq_some_iff.1 ((Tables.applyAll_cons ..).symm.trans ha')
        refine ⟨t₁, by rw [Tables.applyAll_cons, h₁]; rfl, ?_⟩
        have hn : issuedIn (m.queue ++ [.insertSession ⟨e.sid, e.custody, e.sub, e.currentGen,
            e.idleExp, e.absoluteExp, .alive, now, none⟩]) = m.generations := by
          funext s
          simp [issuedIn, SessionMap.generations, SessionCommand.generationOf, List.filterMap_cons]
        rw [hn]
        exact h.tables_whole.insertSession (h.unseen hs).2 h₁
      | cons c' q =>
        obtain ⟨rfl, hq''⟩ := List.cons_prefix_cons.1 hq'
        rw [List.prefix_nil.1 hq''] at hfull ⊢
        exact hfull rfl
  | @refresh _ hash token now => exact absurd rfl (hr hash token now)
  | @kill _ op sid e now reason hk he hal =>
    have hcmds : cmds = [.tombstoneSession sid now] :=
      List.append_cancel_left (hq.symm.trans (SessionMap.kill_queue ..))
    subst hcmds
    cases q with
    | nil => exact hempty rfl
    | cons c q =>
      obtain ⟨rfl, hq'⟩ := List.cons_prefix_cons.1 h₂
      rw [List.prefix_nil.1 hq'] at hfull ⊢
      exact hfull rfl
  | touch | announce =>
    have hcmds : cmds = [] := List.append_right_eq_self.1 hq.symm
    exact hempty (List.prefix_nil.1 (hcmds ▸ h₂))
  | @reap _ order now sid e he =>
    have hcmds : cmds = (e.reapGenerations now m.policy).2.purged.map .deleteGeneration := by
      refine (List.append_cancel_left (hq.symm.trans (SessionMap.reap_queue ..))).trans ?_
      simp [IndexEffects.commands]
    rw [hcmds] at h₂
    obtain ⟨hashes, hpre, rfl⟩ : ∃ hashes, hashes <+: (e.reapGenerations now m.policy).2.purged ∧
        q = hashes.map .deleteGeneration := by
      rw [List.prefix_iff_eq_take] at h₂
      exact ⟨_, List.take_prefix q.length _, by rw [List.map_take]; exact h₂⟩
    have hs := hw.sound sid e he
    have hn : issuedIn (m.queue ++ hashes.map .deleteGeneration) = m.generations := by
      funext s
      simp [issuedIn, SessionMap.generations, SessionCommand.generationOf, Function.comp_def]
    rw [hn]
    refine h.delete hw he (fun hash hh => ?_) fun hx => ?_
    · exact (SessionEntry.reap_hashes now hs.memory).subset
        (List.mem_append_right _ (hpre.subset hh))
    · exact SessionEntry.current_not_purged now hs (hpre.subset hx)
  | remove =>
    have hcmds : cmds = [] := by
      rw [SessionMap.forget_queue] at hq
      exact List.append_right_eq_self.1 hq.symm
    exact hempty (List.prefix_nil.1 (hcmds ▸ h₂))

namespace SessionMap

/-- The committed prefix `p` does not end among the commands of a refresh. -/
def WholeRefreshes (policy : SessionPolicy) (ops : List Op) (p : List SessionCommand) : Prop :=
  ∀ before hash token now later, ops = before ++ .refresh hash token now :: later →
    p.length ≤ (runs policy before).queue.length ∨
      (runs policy (before ++ [.refresh hash token now])).queue.length ≤ p.length

/-- A call only appends to the queue. -/
theorem step_queue {m : SessionMap} {op : Op} (hf : op.FreshIn m) :
    m.queue <+: (m.step op).queue :=
  moves_invariant (fun m' => m.queue <+: m'.queue) (fun _ _ h hm => h.trans hm.queue)
    (step_moves hf) (List.prefix_refl _)

theorem queue_cut {policy : SessionPolicy} {ops : List Op} (hf : Fresh ops)
    {p : List SessionCommand} (hp : p <+: (runs policy ops).queue) :
    p = [] ∨ ∃ before op later, ops = before ++ op :: later ∧
      (runs policy before).queue <+: p ∧ p <+: ((runs policy before).step op).queue := by
  have hcut := run_cut ops (fun before op later hops => ?_) hp
  · exact hcut.imp_left List.prefix_nil.1
  · rw [hops, List.append_cons] at hf
    exact step_queue (hf.of_append.from policy).freshIn

/-- **Every prefix with whole refreshes** leaves whole tables. -/
theorem whole_of_prefix {policy : SessionPolicy} {custody : List CustodyRow} {ops : List Op}
    (hf : Fresh ops) (hc : ∀ op ∈ ops, op.CustodyOnFile custody) {p : List SessionCommand}
    (hp : p <+: (runs policy ops).queue) (hw : WholeRefreshes policy ops p) :
    ∃ t, (Tables.fresh custody).applyAll p = some t ∧ t.Whole (issuedIn p) := by
  have between : ∀ before later, ops = before ++ later → p = (runs policy before).queue →
      ∃ t, (Tables.fresh custody).applyAll p = some t ∧ t.Whole (issuedIn p) := by
    rintro before later rfl rfl
    obtain ⟨t, ha, -, hs⟩ := synced_run policy hf.of_append
      fun op ho => hc op (List.mem_append_left _ ho)
    exact ⟨t, ha, hs.tables_whole⟩
  rcases queue_cut hf hp with rfl | ⟨before, op, later, hops, h₁, h₂⟩
  · exact ⟨_, rfl, ⟨List.nodup_nil, List.nodup_nil⟩, fun _ h => by cases h⟩
  · by_cases hr : ∃ hash token now, op = .refresh hash token now
    · obtain ⟨hash, token, now, rfl⟩ := hr
      have hstep : runs policy (before ++ [.refresh hash token now]) =
          (runs policy before).step (.refresh hash token now) := run_concat ..
      rcases hw before hash token now later hops with hl | hl
      · exact between before _ hops (h₁.eq_of_length_le hl).symm
      · refine between (before ++ [.refresh hash token now]) later (by simp [hops]) ?_
        rw [hstep] at hl ⊢
        exact h₂.eq_of_length_le hl
    · have hfb : Fresh before := by
        rw [hops] at hf
        exact hf.of_append
      have hfresh : op.FreshIn (runs policy before) := by
        rw [hops, List.append_cons] at hf
        exact (hf.of_append.from policy).freshIn
      have hon : op.CustodyOnFile custody := hc op (by simp [hops])
      have hsync : InSync custody (runs policy before) :=
        synced_run policy hfb fun o ho => hc o (by simp [hops, ho])
      rcases cut_within_step (fun _ _ hm => Move.queue hm) (step_moves hfresh) h₂ with
        h | ⟨m, m', hm, hmove, -, h₃, h₄⟩
      · exact between before _ hops (h.eq_of_length_le h₁.length_le)
      · obtain ⟨hk, t, ha, rfl, hs⟩ := moves_invariant
          (fun m => m.Kept policy ∧ InSync custody m)
          (fun _ _ h hm => ⟨h.1.move hm, h.2.move h.1.wf h.1.counted hon hm⟩) hm
          ⟨kept_run policy hfb, hsync⟩
        exact hs.cut hk.wf hk.counted hon ha (fun hash token now hx => hr ⟨_, _, _, hx⟩) hmove
          h₃ h₄

end SessionMap

/-! ## The recovered map -/

/-- Whole generations are read back in their order. -/
theorem Tables.Whole.boot {t : Tables} {n : Sid → ℕ} (h : t.Whole n) {r : SessionRecord}
    (hr : r ∈ t.session) (hn : n r.row.sid < 2 ^ 32) :
    (t.bootRowsOf r.row.sid).map (·.toGeneration) = t.gensOf r.row.sid := by
  have hperm := (t.bootRowsOf_perm r.row.sid).map (·.toGeneration)
  rcases h.whole r hr with hnil | hw
  · have hempty := hperm.trans (List.Perm.of_eq hnil)
    rw [hempty.eq_nil, hnil]
  · have hinc : (t.gensOf r.row.sid).Pairwise fun g g' => g.genNo < g'.genNo :=
      hw.numbered.increasing hn
    have hsort : ((t.bootRowsOf r.row.sid).map (·.toGeneration)).Pairwise
        fun g g' => g.genNo ≤ g'.genNo := List.pairwise_map.2 (t.bootRowsOf_sorted _)
    refine hperm.eq_of_pairwise (fun a b ha hb hab hba => ?_) hsort (hinc.imp Nat.le_of_lt)
    -- two generations with one number are one
    have ha' : a ∈ t.gensOf r.row.sid := hperm.mem_iff.1 ha
    have hne : (t.gensOf r.row.sid).Pairwise fun g g' => g.genNo ≠ g'.genNo :=
      hinc.imp Nat.ne_of_lt
    have hinj : ((t.gensOf r.row.sid).map (·.genNo)).Nodup := List.pairwise_map.2 hne
    exact List.inj_on_of_nodup_map hinj ha' hb (le_antisymm hab hba)

/-- Recovered entries are numbered from what was committed on. -/
def SessionMap.NumberedFrom (m : SessionMap) (n : Sid → ℕ) : Prop :=
  ∀ sid e, m.sessions sid = some e → e.Numbered (n sid + m.generations sid)

theorem Tables.Whole.restart {t : Tables} {n : Sid → ℕ} (h : t.Whole n) (hn : ∀ sid, n sid < 2 ^ 32)
    (policy : SessionPolicy) :
    (restart policy t).Wf ∧ (restart policy t).policy = policy ∧
      (restart policy t).NumberedFrom n := by
  have hheld := Tables.restart_holds h.keyed policy
  have hentry : ∀ sid e, (SessionBroker.restart policy t).sessions sid = some e →
      ∃ r ∈ t.session, r.row.sid = sid ∧ e = r.row.restoredEntry (t.gensOf sid) ∧
        r.row.Whole (n sid) (t.gensOf sid) := by
    intro sid e he
    obtain ⟨r, hr, rfl, -, hne, rfl⟩ := (Tables.restart_sessions h.keyed policy).1 he
    refine ⟨r, hr, rfl, by rw [h.boot hr (hn _)], (h.whole r hr).resolve_left fun hx => hne ?_⟩
    exact List.map_eq_nil_iff.1 hx
  refine ⟨⟨fun sid e he => ?_, fun sid e he => ?_, hheld.index⟩, hheld.policy, fun sid e he => ?_⟩
  · obtain ⟨r, -, hrs, rfl, -⟩ := hentry sid e he
    exact hrs
  · obtain ⟨r, -, -, rfl, hw⟩ := hentry sid e he
    refine ⟨hw.ends, Nat.zero_le _, hw.idle, ?_⟩
    simpa [SessionEntry.allHashes, SessionRow.restoredEntry] using h.keyed.gensOf_nodup sid
  · obtain ⟨r, -, -, rfl, hw⟩ := hentry sid e he
    have hzero : (SessionBroker.restart policy t).generations sid = 0 := by
      rw [SessionMap.generations, hheld.queue]
      rfl
    rw [hzero, Nat.add_zero]
    exact hw.numbered

namespace SessionMap

theorem NumberedFrom.move {n : Sid → ℕ} {op : Op} {m m' : SessionMap} (hw : m.Wf)
    (h : m.NumberedFrom n) (hl : op.logsIn = none) (hm : Move op m m') : m'.NumberedFrom n := by
  -- a move that brings no generation
  have frame : (∀ sid, m'.generations sid = m.generations sid) →
      (∀ sid e', m'.sessions sid = some e' → ∃ e, m.sessions sid = some e ∧
        e'.gens.Sublist e.gens ∧ e'.currentGen = e.currentGen) → m'.NumberedFrom n := by
    intro hg hs sid e' he'
    obtain ⟨e, he, hsub, hc⟩ := hs sid e' he'
    rw [hg]
    exact (h sid e he).sublist hsub hc
  have same : ∀ sid e, m.sessions sid = some e → ∃ e₀, m.sessions sid = some e₀ ∧
      e.gens.Sublist e₀.gens ∧ e.currentGen = e₀.currentGen :=
    fun sid e he => ⟨e, he, List.Sublist.refl _, rfl⟩
  cases hm with
  | create => cases hl
  | @refresh _ hash token now sid e e' cookies effects hh hi he hr =>
    intro s e₁ he₁
    rw [commit_sessions, Function.update_apply] at he₁
    rw [generations_commit]
    split_ifs at he₁ with hx
    · cases he₁
      subst hx
      rw [if_pos rfl, ← Nat.add_assoc]
      exact (h s e he).refresh (hw.sound s e he).memory hr
    · rw [if_neg (Ne.symm hx)]
      exact h s e₁ he₁
  | @kill _ op sid e now reason hk he ha =>
    exact frame (fun _ => generations_kill ..)
      (forall_update same (by rintro _ ⟨⟩; exact ⟨e, he, List.Sublist.refl _, rfl⟩))
  | @touch _ order custody status sid e he hc =>
    exact frame (fun _ => rfl)
      (forall_update same (by rintro _ ⟨⟩; exact ⟨e, he, List.Sublist.refl _, rfl⟩))
  | announce => exact frame (fun _ => rfl) same
  | @reap _ order now sid e he =>
    refine frame (fun _ => generations_reap ..) ?_
    rw [reap_sessions]
    refine forall_update same ?_
    rintro _ ⟨⟩
    exact ⟨e, he, SessionEntry.reap_sublist (hw.sound sid e he).memory,
      SessionEntry.reap_currentGen ..⟩
  | @remove _ order now sid e he hc =>
    refine frame (fun _ => generations_forget ..) ?_
    rw [forget_sessions]
    exact forall_update same (fun _ h => by cases h)

/-! ## In order -/

/-- Numbers are distinct and the current one the largest; it names one
    generation, the only one not superseded; a superseded generation is retired
    when its grace is over, and never the newest. -/
structure InOrder (m : SessionMap) (sid : Sid) (e : SessionEntry) : Prop where
  distinct : (e.gens.map (·.genNo)).Nodup
  largest : ∀ g ∈ e.gens, g.genNo ≤ e.currentGen
  current : ∃ g ∈ e.gens, ∀ h ∈ e.gens,
    (h.genNo = e.currentGen ↔ h = g) ∧ (h.supersededAt = none ↔ h = g)
  retired : ∀ g ∈ e.gens, ∀ s, g.supersededAt = some s → ∀ t,
    s.plusSecs m.policy.graceSecs ≤ t → e.sessionExpiry t m.policy = none →
      m.resolve g.tokenHash t = .retired sid g.genNo
  notNewest : ∀ g ∈ e.gens, g.supersededAt ≠ none → ∀ t sid' genNo,
    m.resolve g.tokenHash t ≠ .active sid' genNo true ∧
      m.resolve g.tokenHash t ≠ .staleRefreshable sid' genNo
  remembered : ∀ r ∈ e.retired, ∀ t, e.sessionExpiry t m.policy = none →
    m.resolve r.1 t = .retired sid r.2

def AllInOrder (m : SessionMap) : Prop := ∀ sid e, m.sessions sid = some e → m.InOrder sid e

theorem inOrder_of_numbered {m : SessionMap} (hw : m.Wf) {sid : Sid} {e : SessionEntry}
    (he : m.sessions sid = some e) {n : ℕ} (hnum : e.Numbered n) (hn : n < 2 ^ 32) :
    m.InOrder sid e := by
  have hs := hw.sound sid e he
  have hsid := hw.own sid e he
  obtain ⟨gs, g, hends⟩ := hs.ends
  have hinc := hnum.increasing hn
  have hlt : ∀ h ∈ gs, h.genNo < e.currentGen := by
    intro h hh
    rw [hends.gens, List.pairwise_append] at hinc
    rw [← hends.genNo]
    exact hinc.2.2 h hh g (List.mem_singleton_self g)
  have hmem : ∀ h, h ∈ e.gens ↔ h ∈ gs ∨ h = g := fun h => by
    rw [hends.gens, List.mem_append, List.mem_singleton]
  have hlast : g ∈ e.gens := (hmem g).2 (Or.inr rfl)
  have hold : ∀ h ∈ e.gens, h.supersededAt ≠ none → h.genNo ≠ e.currentGen := by
    intro h hh hsup
    rcases (hmem h).1 hh with hh | rfl
    · exact (hlt h hh).ne
    · exact absurd hends.current hsup
  have hres : ∀ h ∈ e.gens, ∀ t, e.sessionExpiry t m.policy = none →
      m.resolve h.tokenHash t = if t < h.resourceValidUntil m.policy.graceSecs then
        .active e.sid h.genNo (h.genNo = e.currentGen)
      else if h.genNo = e.currentGen then .staleRefreshable e.sid h.genNo
      else .retired e.sid h.genNo := by
    intro h hh t hx
    rw [hw.index.resolve he (List.mem_append_left _ (List.mem_map_of_mem hh))]
    exact SessionEntry.classify_of_mem hs.gens_nodup hx hh
  constructor
  · have hne : e.gens.Pairwise fun g g' => g.genNo ≠ g'.genNo := hinc.imp Nat.ne_of_lt
    exact List.pairwise_map.2 hne
  · intro h hh
    rcases (hmem h).1 hh with hh | rfl
    · exact (hlt h hh).le
    · exact hends.genNo.le
  · refine ⟨g, hlast, fun h hh => ?_⟩
    rcases (hmem h).1 hh with hh | rfl
    · have hne : h ≠ g := fun hx => (hlt h hh).ne (hx ▸ hends.genNo)
      exact ⟨iff_of_false (hlt h hh).ne hne, iff_of_false (hends.superseded h hh) hne⟩
    · exact ⟨iff_of_true hends.genNo rfl, iff_of_true hends.current rfl⟩
  · intro h hh s hsup t ht hx
    have hno := hold h hh (by rw [hsup]; exact Option.some_ne_none s)
    have hend : ¬ t < h.resourceValidUntil m.policy.graceSecs := by
      rw [Generation.resourceValidUntil, hsup, not_lt]
      exact (min_le_right _ _).trans ht
    rw [hres h hh t hx, if_neg hend, if_neg hno, hsid]
  · intro h hh hsup t sid' genNo
    have hno := hold h hh hsup
    cases hx : e.sessionExpiry t m.policy with
    | none =>
      rw [hres h hh t hx, if_neg hno]
      split_ifs <;> simp [hno]
    | some reason =>
      rw [hw.index.resolve he (List.mem_append_left _ (List.mem_map_of_mem hh))]
      simp [SessionEntry.classify, hx]
  · intro r hr t hx
    have hnd := hs.nodup
    rw [SessionEntry.allHashes, List.nodup_append] at hnd
    have hgens : e.gens.find? (fun g => g.tokenHash = r.1) = none := by
      rw [List.find?_eq_none]
      intro h hh hx
      exact hnd.2.2 _ (List.mem_map_of_mem hh) _ (List.mem_map_of_mem hr) (by simpa using hx)
    have hret : e.retired.find? (fun r' => r'.1 = r.1) = some r := by
      cases hf : e.retired.find? (fun r' => r'.1 = r.1) with
      | none => simpa using List.find?_eq_none.1 hf r hr
      | some r' =>
        have hh : r'.1 = r.1 := by simpa using List.find?_some hf
        rw [List.inj_on_of_nodup_map hnd.2.1 (List.mem_of_find?_eq_some hf) hr hh]
    rw [hw.index.resolve he (List.mem_append_right _ (List.mem_map_of_mem hr))]
    simp only [SessionEntry.classify, hx, hgens, hret, hsid]

end SessionMap

/-! ## Cuts within a refresh -/

/-- A mint inserts its generation first, and never touches it again. -/
theorem SessionEntry.mint_commands {e : SessionEntry} {policy : SessionPolicy}
    {token : SessionToken} (hs : e.Sound policy) (hf : token.hash ∉ e.allHashes) (now : Timestamp)
    (sid : Sid) : ∃ rest, (e.mint token now policy).2.commands sid =
      .insertGeneration sid (e.minted token now policy).genNo token.hash now
        (now.plusSecs policy.genTtlSecs) :: rest ∧
      (∀ s, .supersedeGeneration token.hash s ∉ rest) ∧ .deleteGeneration token.hash ∉ rest := by
  have hp := hs.pushed now hf
  have hcur : (e.pushed token now policy).current = e.minted token now policy := by
    simp [SessionEntry.current, SessionEntry.pushed, List.getLast!_eq_getLast?_getD]
  refine ⟨((e.gens.getLast?.map fun cur => (cur.tokenHash, now)).toList.map fun p =>
    .supersedeGeneration p.1 p.2) ++ (e.mint token now policy).2.purged.map .deleteGeneration,
    rfl, fun s hx => ?_, fun hx => ?_⟩
  · simp only [List.mem_append, List.mem_map, Option.mem_toList, reduceCtorEq, and_false,
      exists_false, or_false] at hx
    obtain ⟨p, hp, hpx⟩ := hx
    obtain ⟨g, hg, rfl⟩ := Option.map_eq_some_iff.1 hp
    injection hpx with h
    exact hf (h ▸ List.mem_append_left _ (List.mem_map_of_mem (List.mem_of_getLast? hg)))
  · simp only [List.mem_append, List.mem_map, reduceCtorEq, and_false, exists_false,
      false_or] at hx
    obtain ⟨h, hh, hhx⟩ := hx
    injection hhx with hh'
    have hno := current_not_purged now hp
    rw [hcur, minted_tokenHash] at hno
    exact hno (hh' ▸ hh)

namespace SessionMap

/-- **Within a refresh** the new generation is stored, and the row still names
    another one. -/
theorem not_inOrder_of_cut {policy : SessionPolicy} {custody : List CustodyRow} {before : List Op}
    {hash : TokenHash} {token : SessionToken} {now : Timestamp}
    (hf : Fresh (before ++ [.refresh hash token now]))
    (hc : ∀ op ∈ before, op.CustodyOnFile custody) {p : List SessionCommand}
    (h₁ : (runs policy before).queue <+: p)
    (h₂ : p <+: ((runs policy before).step (.refresh hash token now)).queue)
    (hl₁ : (runs policy before).queue.length < p.length)
    (hl₂ : p.length < ((runs policy before).step (.refresh hash token now)).queue.length)
    {t : Tables} (ht : (Tables.fresh custody).applyAll p = some t) :
    ¬ (restart policy t).AllInOrder := by
  have hk := kept_run policy hf.of_append
  have hnew : ¬ (runs policy before).Knows token.hash :=
    ((hf.from policy).freshIn).1 _ rfl
  obtain ⟨t₀, ha, -, hs⟩ := synced_run policy hf.of_append hc
  have hkeyed : t.Keyed :=
    Tables.Keyed.applyAll (t := Tables.fresh custody) ⟨List.nodup_nil, List.nodup_nil⟩ ht
  generalize hrun : runs policy before = m at *
  obtain ⟨q, rfl⟩ := h₁
  have hq : t₀.applyAll q = some t := by
    rw [Tables.applyAll_append, ha] at ht
    exact ht
  rcases step_refresh m hash token now with hx | ⟨sid, e, e', cookies, effects, hi, he, hr, hx⟩
  · rw [hx] at hl₂
    rw [List.length_append] at hl₁ hl₂
    omega
  · rw [hx, commit_queue] at h₂ hl₂
    rw [List.prefix_append_right_inj] at h₂
    simp only [List.length_append, List.length_singleton] at hl₁ hl₂
    -- all of `q` is of the index effects
    have hqe : q <+: effects.commands sid :=
      List.prefix_of_prefix_length_le h₂ (List.prefix_append ..) (by omega)
    obtain ⟨husable, hcases⟩ := SessionEntry.refresh_cases hr
    rcases hcases with ⟨_, _, _, -, rfl, -⟩ | ⟨-, -, rfl, -⟩
    · rw [IndexEffects.commands_empty, List.prefix_nil] at hqe
      rw [hqe, List.length_nil] at hl₁
      omega
    · have hsound := hk.wf.sound sid e he
      have hgone : token.hash ∉ e.allHashes := fun hx => by
        rw [← hk.wf.index.mem he] at hx
        exact hnew (Or.inl (by rw [hx]; exact Option.some_ne_none sid))
      obtain ⟨rest, hrest, hsup, hdel⟩ := SessionEntry.mint_commands hsound hgone now sid
      -- the row is the one before the refresh
      have hrow : t.rowOf sid = t₀.rowOf sid := by
        rw [Tables.rowOf_applyAll sid hq]
        exact foldl_writeRow_eq fun c hc => writeRow_commands (hqe.subset hc) _
      obtain ⟨r₀, hr₀, hm, hb⟩ := hs.entry sid e he
      have hr₀s : r₀.row.sid = sid := hm.sid.trans (hk.wf.own sid e he)
      rw [← hr₀s, hs.keyed.rowOf_eq hr₀] at hrow
      obtain ⟨r, hr', hrr, -⟩ := Tables.mem_of_rowOf hrow
      -- the new generation is stored
      rw [hrest] at hqe
      cases q with
      | nil =>
        rw [List.length_nil] at hl₁
        omega
      | cons c q' =>
        obtain ⟨rfl, hq'⟩ := List.cons_prefix_cons.1 hqe
        rw [Tables.applyAll_cons, Option.bind_eq_some_iff] at hq
        obtain ⟨t₁, h₃, h₄⟩ := hq
        have hin : e.minted token now m.policy ∈ t₁.gensOf sid := by
          simp only [Tables.applyCommand, Tables.insertGeneration] at h₃
          split_ifs at h₃
          cases h₃
          rw [Tables.mem_gensOf]
          exact ⟨_, List.mem_append_right _ (List.mem_singleton_self _), rfl, rfl⟩
        have hstored := Tables.mem_gensOf_applyAll h₄ hin (fun s hx => hsup s (hq'.subset hx))
          fun hx => hdel (hq'.subset hx)
        have hne : t.rowsOf sid ≠ [] := fun hx => by
          rw [Tables.gensOf, hx] at hstored
          cases hstored
        have halive : e.status = .alive := (SessionEntry.sessionExpiry_eq_none.1
          (SessionEntry.mem_of_refreshable husable).1).1
        intro hall
        have hord := hall sid _ ((Tables.restart_sessions hkeyed policy).2
          ⟨r, hr', by rw [hrr, hr₀s], by rw [hrr, hm.status, halive], hne, rfl⟩)
        obtain ⟨g, -, hcur⟩ := hord.current
        have hmem := Tables.mem_bootGens.2 hstored
        have hsame := (hcur _ hmem).1.2 ((hcur _ hmem).2.1 rfl)
        have hnum : (e.currentGen + 1) % 2 ^ 32 = e.currentGen := by
          have hrc : r.row.currentGen = e.currentGen := by rw [hrr, hm.currentGen]
          exact hsame.trans hrc
        have hlt := (hk.counted.numbered sid e he).currentGen
        omega

/-- **A crash leaves every session in order**, whatever is called after the
    restart, exactly if it did not cut a refresh. -/
theorem crash_consistent_iff (policy : SessionPolicy) (custody : List CustodyRow) (ops : List Op)
    (hf : Fresh ops) (hc : ∀ op ∈ ops, op.CustodyOnFile custody) (p : List SessionCommand)
    (hp : p <+: (runs policy ops).queue) :
    ∃ t, (Tables.fresh custody).applyAll p = some t ∧ ∀ later,
      (∀ op ∈ later, op.logsIn = none) → FreshFrom (restart policy t) later →
      (∀ sid, issuedIn p sid + (run step (restart policy t) later).generations sid < 2 ^ 32) →
      ((∀ soon, soon <+: later → (run step (restart policy t) soon).AllInOrder) ↔
        WholeRefreshes policy ops p) := by
  obtain ⟨tₙ, ha, -⟩ := synced_run policy hf hc
  obtain ⟨t, ht⟩ := Tables.applyAll_prefix hp ha
  refine ⟨t, ht, fun later hl hfl hn => ?_⟩
  constructor
  · intro h before hash token now after hops
    by_contra hcut
    rw [not_or, not_le, not_le] at hcut
    have hstep : runs policy (before ++ [.refresh hash token now]) =
        (runs policy before).step (.refresh hash token now) := run_concat ..
    rw [hstep] at hcut
    have hops' : ops = (before ++ [.refresh hash token now]) ++ after := by simp [hops]
    have hfb : Fresh (before ++ [.refresh hash token now]) := by
      rw [hops'] at hf
      exact hf.of_append
    -- the queue of every part of the run is a prefix of the whole
    have hpre : (runs policy (before ++ [.refresh hash token now])).queue <+:
        (runs policy ops).queue := by
      rw [hops'] at hf ⊢
      exact fresh_stable (fun m => (runs policy (before ++ [.refresh hash token now])).queue <+:
        m.queue) (List.prefix_refl _) (fun _ _ _ h hm => h.trans hm.queue) (hf.from policy)
    rw [hstep] at hpre
    have hbase := (step_queue (hfb.from policy).freshIn).trans hpre
    exact not_inOrder_of_cut hfb (fun op ho => hc op (by simp [hops, ho]))
      (List.prefix_of_prefix_length_le hbase hp hcut.1.le)
      (List.prefix_of_prefix_length_le hp hpre hcut.2.le) hcut.1 hcut.2 ht
      (h [] List.nil_prefix)
  · intro hw soon hsoon
    obtain ⟨t', ht', hwhole⟩ := whole_of_prefix hf hc hp hw
    obtain rfl : t = t' := Option.some.inj (ht.symm.trans ht')
    obtain ⟨after, rfl⟩ := hsoon
    have hstart := hwhole.restart (fun sid => (Nat.le_add_right _ _).trans_lt (hn sid)) policy
    have hnum : (fun m : SessionMap => m.Wf ∧ m.NumberedFrom (issuedIn p))
        (run step (restart policy t) soon) := by
      refine run_moves_invariant
        (fun ops => FreshFrom (restart policy t) ops ∧ ∀ op ∈ ops, op.logsIn = none)
        (fun m => m.Wf ∧ m.NumberedFrom (issuedIn p)) (fun as a h => ?_)
        (fun as a h => step_moves h.1.freshIn) ⟨hstart.1, hstart.2.2⟩
        (fun as a m m' h hi hm => ⟨hi.1.move hm, hi.2.move hi.1 ?_ hm⟩) soon
        ⟨hfl.of_append, fun op ho => hl op (List.mem_append_left _ ho)⟩
      · exact ⟨h.1.of_append, fun op ho => h.2 op (List.mem_append_left _ ho)⟩
      · exact h.2 a (List.mem_append_right _ (List.mem_singleton_self a))
    have hle : ∀ sid, (run step (restart policy t) soon).generations sid ≤
        (run step (restart policy t) (soon ++ after)).generations sid := by
      intro sid
      have hq := fresh_stable (fun m => (run step (restart policy t) soon).queue <+: m.queue)
        (List.prefix_refl _) (fun _ _ _ h hm => h.trans hm.queue) hfl
      exact (hq.filterMap _).sublist.count_le sid
    intro sid e he
    refine inOrder_of_numbered hnum.1 he (hnum.2 sid e he) ?_
    exact (Nat.add_le_add_left (hle sid) _).trans_lt (hn sid)

/-- Cut after its first command, a refresh leaves two generations that were not
    superseded. -/
theorem crash_cuts_refresh :
    let ops := [Op.create ⟨"s"⟩ ⟨"c"⟩ "alice" .sample1 ⟨0⟩,
      .refresh SessionToken.sample1.hash .sample2 ⟨100⟩]
    let p := (runs {} ops).queue.take 3
    Fresh ops ∧ (∀ op ∈ ops, op.CustodyOnFile [⟨⟨"c"⟩, "p"⟩]) ∧ p <+: (runs {} ops).queue ∧
      ∃ t, (Tables.fresh [⟨⟨"c"⟩, "p"⟩]).applyAll p = some t ∧ ¬ (restart {} t).AllInOrder := by
  intro ops p
  refine ⟨by decide, by simp [ops, Op.CustodyOnFile], List.take_prefix .., ?_⟩
  obtain ⟨t, ht⟩ : ∃ t, (Tables.fresh [⟨⟨"c"⟩, "p"⟩]).applyAll p = some t :=
    Option.isSome_iff_exists.1 (by decide)
  refine ⟨t, ht, fun hall => ?_⟩
  have hgens : ((Tables.fresh [⟨⟨"c"⟩, "p"⟩]).applyAll p).map (fun t =>
      ((restart {} t).sessions ⟨"s"⟩).map fun e => e.gens.map fun g => (g.genNo, g.supersededAt)) =
      some (some [(1, none), (2, none)]) := by decide
  rw [ht, Option.map_some, Option.some.injEq, Option.map_eq_some_iff] at hgens
  obtain ⟨e, he, hgens⟩ := hgens
  obtain ⟨a, gens, hcons, ha, hgens⟩ := List.map_eq_cons_iff.1 hgens
  obtain ⟨b, gens', rfl, hb, -⟩ := List.map_eq_cons_iff.1 hgens
  obtain ⟨g, -, hcur⟩ := (hall _ e he).current
  rw [hcons] at hcur
  have hag := (hcur a (by simp)).2.1 (Prod.ext_iff.1 ha).2
  have hbg := (hcur b (by simp)).2.1 (Prod.ext_iff.1 hb).2
  have hno : a.genNo = b.genNo := by rw [hag, hbg]
  have ha₁ : a.genNo = 1 := (Prod.ext_iff.1 ha).1
  have hb₁ : b.genNo = 2 := (Prod.ext_iff.1 hb).1
  omega

/-- At a concrete run: nothing was lost. -/
theorem crash_consistent_iff_nothing_lost :
    let ops := [Op.create ⟨"s"⟩ ⟨"c"⟩ "alice" .sample1 ⟨0⟩,
      .refresh SessionToken.sample1.hash .sample2 ⟨100⟩]
    ∃ t, (Tables.fresh [⟨⟨"c"⟩, "p"⟩]).applyAll (runs {} ops).queue = some t ∧
      (restart {} t).AllInOrder := by
  intro ops
  obtain ⟨t, ht, h⟩ := crash_consistent_iff {} [⟨⟨"c"⟩, "p"⟩] ops (by decide)
    (by simp [ops, Op.CustodyOnFile]) (runs {} ops).queue (List.prefix_refl _)
  have hkeyed : t.Keyed :=
    Tables.Keyed.applyAll (t := Tables.fresh _) ⟨List.nodup_nil, List.nodup_nil⟩ ht
  have hqueue : (restart {} t).queue = [] := (Tables.restart_holds hkeyed {}).queue
  have hlen : (runs {} ops).queue.length = 5 := by decide
  have hfresh : FreshFrom (restart {} t) [] :=
    ⟨⟨List.nodup_nil, List.nodup_nil⟩, (fun _ h => by cases h), fun _ h => by cases h⟩
  refine ⟨t, ht, (h [] (fun _ h => by cases h) hfresh fun sid => ?_).2 ?_ [] (List.prefix_refl _)⟩
  · have hle : issuedIn (runs {} ops).queue sid ≤ (runs {} ops).queue.length :=
      List.count_le_length.trans (List.length_filterMap_le ..)
    simp only [run_nil, generations, hqueue, List.filterMap_nil, List.count_nil]
    omega
  · intro before hash token now later hops
    change [_, _] = _ at hops
    right
    rcases before with _ | ⟨_, _ | ⟨_, before⟩⟩
    · cases hops
    · cases hops
      exact le_rfl
    · have hlen := congrArg List.length hops
      simp at hlen

end SessionMap

end SessionBroker
