/-
  One client, and the tail of the queue a crash loses.

  The client presents the cookie of its last login or refresh that succeeded,
  and has no other.

  * `HeldBy`: what map and queue say of that cookie, after any run;
  * `Saves`: what of it a committed prefix of the queue has;
  * `lost_tail_iff`.
-/
import SessionBroker.Restart

namespace SessionBroker

open Relation Runs

/-! ## The client -/

/-- The cookie an answer sets. -/
def Reply.cookie : Reply → Option SessionToken
  | .issued cookies => some cookies.token
  | _ => none

/-- The broker, and the cookie its client holds. -/
structure Client where
  map : SessionMap
  held : Option SessionToken

namespace Client

def step (c : Client) (op : Op) : Client :=
  let r := c.map.call op
  ⟨r.1, r.2.cookie.or c.held⟩

def runs (policy : SessionPolicy) (ops : List Op) : Client :=
  run step ⟨.withDurability policy, none⟩ ops

@[simp] theorem runs_map (policy : SessionPolicy) (ops : List Op) :
    (runs policy ops).map = SessionMap.runs policy ops := by
  induction ops using List.reverseRecOn with
  | nil => rfl
  | append_singleton ops op ih =>
    rw [runs, SessionMap.runs, run_concat, run_concat]
    exact congrArg (SessionMap.step · op) ih

end Client

/-- Every refresh presents the cookie held. -/
def Presents (policy : SessionPolicy) (ops : List Op) : Prop :=
  ∀ before hash token now later, ops = before ++ .refresh hash token now :: later →
    ∃ held, (Client.runs policy before).held = some held ∧ held.hash = hash

theorem Presents.of_append {policy : SessionPolicy} {ops ops' : List Op}
    (h : Presents policy (ops ++ ops')) : Presents policy ops :=
  fun before hash token now later hops => h before hash token now (later ++ ops') (by simp [hops])

/-! ## Hashes the queue names -/

/-- The hash a command supersedes or deletes. -/
def SessionCommand.ends : SessionCommand → Option TokenHash
  | supersedeGeneration hash _ | deleteGeneration hash => some hash
  | _ => none

@[simp] theorem filterMap_ends_new (e : SessionEntry) (now : Timestamp) :
    (SessionMap.newCommands e now).filterMap SessionCommand.ends = [] := by
  simp [SessionMap.newCommands, SessionCommand.ends]

@[simp] theorem IndexEffects.filterMap_ends (effects : IndexEffects) (sid : Sid) :
    (effects.commands sid).filterMap SessionCommand.ends =
      effects.superseded.toList.map (·.1) ++ effects.purged := by
  obtain ⟨added, superseded, purged⟩ := effects
  cases added <;> cases superseded <;>
    simp [commands, SessionCommand.ends, List.filterMap_cons, Function.comp_def]

namespace SessionMap

/-- What is indexed, superseded or deleted was issued. -/
structure Traced (m : SessionMap) : Prop where
  indexed : ∀ hash sid, m.index hash = some sid → hash ∈ m.issued
  ended : ∀ hash ∈ m.queue.filterMap SessionCommand.ends, hash ∈ m.issued

theorem traced_withDurability (policy : SessionPolicy) : (withDurability policy).Traced :=
  ⟨(fun _ _ h => by cases h), fun _ h => by cases h⟩

theorem Traced.move {op : Op} {m m' : SessionMap} (hw : m.Wf) (h : m.Traced) (hm : Move op m m') :
    m'.Traced := by
  have keep : ∀ hash ∈ m.issued, hash ∈ m'.issued := hm.issued.subset
  -- no command that names a hash, and no new hash in the index
  have frame : (∀ hash sid, m'.index hash = some sid → m.index hash = some sid) →
      m'.queue.filterMap SessionCommand.ends = m.queue.filterMap SessionCommand.ends →
      m'.Traced := fun hi he =>
    ⟨fun hash sid hx => keep hash (h.indexed hash sid (hi hash sid hx)),
      fun hash hx => keep hash (h.ended hash (he ▸ hx))⟩
  cases hm with
  | @create _ sid custody sub token now hh hs =>
    constructor
    · intro hash sid' hi
      rw [create_index, Function.update_apply] at hi
      split_ifs at hi with hx
      · simp [issued, newEntry, hx]
      · exact keep hash (h.indexed hash sid' hi)
    · intro hash hx
      rw [create_queue, List.filterMap_append, filterMap_ends_new, List.append_nil] at hx
      exact keep hash (h.ended hash hx)
  | @refresh _ hash₀ token now sid e e' cookies effects hh hi he hr =>
    have hadd : ∀ g ∈ effects.added, g.tokenHash ∈ (m.commit sid e' effects).issued := by
      intro g hg
      simp only [issued, commit_queue, List.filterMap_append, IndexEffects.filterMap_issues,
        List.mem_append, List.mem_map, Option.mem_toList]
      exact Or.inr (Or.inl ⟨g, hg, rfl⟩)
    have hmine : ∀ hash ∈ e.allHashes, hash ∈ (m.commit sid e' effects).issued := fun hash hx =>
      keep hash (h.indexed hash sid ((hw.index.mem he).2 hx))
    constructor
    · intro hash sid' hx
      rw [commit_index] at hx
      unfold IndexEffects.index at hx
      split_ifs at hx with hp ha
      · obtain ⟨g, hg, rfl⟩ := ha
        exact hadd g hg
      · exact keep hash (h.indexed hash sid' hx)
    · intro hash hx
      rw [commit_queue, List.filterMap_append, List.filterMap_append, IndexEffects.filterMap_ends,
        List.mem_append, List.mem_append, List.mem_append] at hx
      rcases hx with hx | (hx | hx) | hx
      · exact keep hash (h.ended hash hx)
      · obtain ⟨p, hp, rfl⟩ := List.mem_map.1 hx
        exact hmine p.1 (SessionEntry.refresh_superseded hr p (Option.mem_toList.1 hp))
      · have hall := (SessionEntry.refresh_hashes (hw.sound sid e he).memory hr).subset
          (List.mem_append_right _ hx)
        rcases List.mem_append.1 hall with hx | hx
        · obtain ⟨g, hg, rfl⟩ := List.mem_map.1 hx
          exact hadd g (Option.mem_toList.1 hg)
        · exact hmine hash hx
      · simp [SessionCommand.ends] at hx
  | kill => exact frame (fun _ _ => id) (by simp [SessionCommand.ends])
  | touch => exact frame (fun _ _ => id) rfl
  | announce => exact frame (fun _ _ => id) rfl
  | @reap _ order now sid e he =>
    constructor
    · intro hash sid' hx
      rw [reap_index] at hx
      unfold IndexEffects.index at hx
      split_ifs at hx with hp ha
      · simp at ha
      · exact keep hash (h.indexed hash sid' hx)
    · intro hash hx
      rw [reap_queue, List.filterMap_append, IndexEffects.filterMap_ends, List.mem_append] at hx
      rcases hx with hx | hx
      · exact keep hash (h.ended hash hx)
      · have hall := (SessionEntry.reap_hashes now (hw.sound sid e he).memory).subset
          (List.mem_append_right _ (by simpa using hx))
        exact keep hash (h.indexed hash sid ((hw.index.mem he).2 hall))
  | @remove _ order now sid e he hc =>
    refine frame (fun hash sid' hx => ?_) (by simp)
    rw [forget_index] at hx
    dsimp only at hx
    split_ifs at hx
    exact hx

/-! ## The cookie held -/

/-- The hash is that of the current generation `g` of `sid`, which the queue
    issued and nothing ended. -/
structure HeldBy (m : SessionMap) (hash : TokenHash) (sid : Sid) (g : Generation) : Prop where
  hash : g.tokenHash = hash
  unsuperseded : g.supersededAt = none
  issued : .insertGeneration sid g.genNo g.tokenHash g.createdAt g.activeUntil ∈ m.queue
  kept : g.tokenHash ∉ m.queue.filterMap SessionCommand.ends
  entry : ∀ e, m.sessions sid = some e → e.current = g
  row : ∃ row, m.row sid = some row ∧ row.currentGen = g.genNo

theorem HeldBy.issuedTo {m : SessionMap} {hash : TokenHash} {sid : Sid} {g : Generation}
    (h : m.HeldBy hash sid g) : g.tokenHash ∈ m.issuedTo sid :=
  List.mem_filterMap.2 ⟨_, h.issued, if_pos rfl⟩

theorem heldBy_create {m : SessionMap} (h : m.Traced) {sid : Sid} {custody : CustodyId}
    {sub : String} {token : SessionToken} {now : Timestamp} (hh : ¬ m.Knows token.hash) :
    (m.create sid custody sub token now).1.HeldBy token.hash sid
      ⟨1, token.hash, now, now.plusSecs m.policy.genTtlSecs, none⟩ := by
  refine ⟨rfl, rfl, ?_, ?_, ?_, ?_⟩
  · simp [newCommands, newEntry]
  · rw [create_queue, List.filterMap_append, filterMap_ends_new, List.append_nil]
    exact fun hx => hh (Or.inr (h.ended _ hx))
  · rw [create_sessions, Function.update_self]
    rintro _ ⟨⟩
    rfl
  · exact ⟨⟨sid, custody, sub, 1, min (now.plusSecs m.policy.idleTtlSecs)
      (now.plusSecs m.policy.absoluteTtlSecs), now.plusSecs m.policy.absoluteTtlSecs, .alive, now,
      none⟩, by simp [row, newCommands, newEntry, SessionCommand.writeRow], rfl⟩

/-- **Calls that draw no cookie** leave the one held alone. -/
theorem HeldBy.move {policy : SessionPolicy} {op : Op} {m m' : SessionMap} {hash : TokenHash}
    {sid : Sid} {g : Generation} (hk : m.Kept policy) (h : m.HeldBy hash sid g)
    (hd : op.draws = none) (hm : Move op m m') : m'.HeldBy hash sid g := by
  have hrow := h.row
  have hin := hm.queue.subset h.issued
  cases hm with
  | create => cases hd
  | refresh => cases hd
  | @kill _ op sid' e now reason hkl he ha =>
    refine ⟨h.hash, h.unsuperseded, hin, ?_, ?_, ?_⟩
    · simpa [SessionCommand.ends] using h.kept
    · intro e' he'
      rw [kill_sessions, Function.update_apply] at he'
      split_ifs at he' with hx
      · cases he'
        exact h.entry e (hx ▸ he)
      · exact h.entry e' he'
    · obtain ⟨row, hr, hc⟩ := hrow
      rw [row_kill, hr]
      split_ifs
      · exact ⟨_, rfl, hc⟩
      · exact ⟨_, rfl, hc⟩
  | @touch _ order custody status sid' e he hcu =>
    refine ⟨h.hash, h.unsuperseded, hin, h.kept, fun e' he' => ?_, hrow⟩
    rw [setEntry_sessions, Function.update_apply] at he'
    split_ifs at he' with hx
    · cases he'
      exact h.entry e (hx ▸ he)
    · exact h.entry e' he'
  | announce => exact ⟨h.hash, h.unsuperseded, hin, h.kept, h.entry, hrow⟩
  | @reap _ order now sid' e he =>
    have hs := hk.wf.sound sid' e he
    refine ⟨h.hash, h.unsuperseded, hin, ?_, fun e' he' => ?_, by simpa using hrow⟩
    · rw [reap_queue, List.filterMap_append, IndexEffects.filterMap_ends]
      intro hx
      rcases List.mem_append.1 hx with hx | hx
      · exact h.kept hx
      · have hpur : g.tokenHash ∈ (e.reapGenerations now m.policy).2.purged := by simpa using hx
        have hmine : g.tokenHash ∈ e.allHashes :=
          (SessionEntry.reap_hashes now hs.memory).subset (List.mem_append_right _ hpur)
        have hown := hk.killings.owner sid _ h.issuedTo sid' ((hk.wf.index.mem he).2 hmine)
        rw [← h.entry e (hown ▸ he)] at hpur
        exact SessionEntry.current_not_purged now hs hpur
    · rw [reap_sessions, Function.update_apply] at he'
      split_ifs at he' with hx
      · cases he'
        rw [hs.reap_current now]
        exact h.entry e (hx ▸ he)
      · exact h.entry e' he'
  | @remove _ order now sid' e he hcol =>
    refine ⟨h.hash, h.unsuperseded, by simpa using hin, by simpa using h.kept, fun e' he' => ?_,
      by simpa using hrow⟩
    rw [forget_sessions, Function.update_apply] at he'
    split_ifs at he'
    exact h.entry e' he'

/-- **A refresh with the cookie held** leaves the one it answers with held. -/
theorem HeldBy.commit {policy : SessionPolicy} {m : SessionMap} {hash : TokenHash}
    {sid sid' : Sid} {g : Generation} {token : SessionToken} {now : Timestamp}
    {e e' : SessionEntry} {cookies : IssuedCookies} {effects : IndexEffects} (hk : m.Kept policy)
    (ht : m.Traced) (h : m.HeldBy hash sid g) (hh : ¬ m.Knows token.hash)
    (hi : m.index hash = some sid') (he : m.sessions sid' = some e)
    (hr : e.refresh hash token now m.policy = .ok (e', cookies, effects)) :
    ∃ g', (m.commit sid' e' effects).HeldBy cookies.token.hash sid' g' := by
  obtain rfl : sid' = sid := hk.killings.owner sid _ h.issuedTo sid' (h.hash ▸ hi)
  have hs := hk.wf.sound sid' e he
  have hcur := h.entry e he
  obtain ⟨row, hrow, hgen⟩ := h.row
  have hrow' : ∃ row', (m.commit sid' e' effects).row sid' = some row' ∧
      row'.currentGen = e'.currentGen := by
    rw [row_commit, if_pos rfl, hrow]
    exact ⟨_, rfl, rfl⟩
  have hentry : ∀ e₁, (m.commit sid' e' effects).sessions sid' = some e₁ → e₁ = e' := by
    intro e₁ he₁
    rw [commit_sessions, Function.update_self] at he₁
    exact (Option.some.inj he₁).symm
  rcases (SessionEntry.refresh_cases hr).2 with
    ⟨current, htok, -, rfl, rfl, rfl⟩ | ⟨-, rfl, rfl, rfl⟩
  · -- coalesced: the current cookie again
    obtain ⟨gs, g', hg⟩ := hs.ends
    obtain rfl : g' = g := hg.current_eq.symm.trans hcur
    refine ⟨g', (hg.token current htok).symm, h.unsuperseded, ?_, ?_, ?_, ?_⟩
    · rw [commit_queue]
      exact List.mem_append_left _ h.issued
    · simpa [SessionCommand.ends] using h.kept
    · intro e₁ he₁
      rw [hentry e₁ he₁]
      exact hcur
    · obtain ⟨row', hr', hc'⟩ := hrow'
      exact ⟨row', hr', hc'.trans hg.genNo.symm⟩
  · -- minted: the new generation
    have hgone : token.hash ∉ e.allHashes := fun hx => by
      rw [← hk.wf.index.mem he] at hx
      exact hh (Or.inl (by rw [hx]; exact Option.some_ne_none sid'))
    have hp := hs.pushed now hgone
    have hnew : (e.pushed token now m.policy).current = e.minted token now m.policy := by
      simp [SessionEntry.current, SessionEntry.pushed, List.getLast!_eq_getLast?_getD]
    refine ⟨e.minted token now m.policy, rfl, rfl, ?_, ?_, ?_, ?_⟩
    · rw [commit_queue]
      refine List.mem_append_right _ (List.mem_append_left _ ?_)
      simp [IndexEffects.commands, SessionEntry.mint_eq, SessionEntry.minted]
    · rw [commit_queue, List.filterMap_append, List.filterMap_append, IndexEffects.filterMap_ends,
        List.mem_append, List.mem_append, List.mem_append]
      rintro (hx | (hx | hx) | hx)
      · exact hh (Or.inr (ht.ended _ hx))
      · obtain ⟨p, hp, hpx⟩ := List.mem_map.1 hx
        refine hgone ?_
        rw [← show p.1 = token.hash from hpx]
        exact SessionEntry.refresh_superseded hr p (Option.mem_toList.1 hp)
      · have hno := SessionEntry.current_not_purged now hp
        rw [hnew] at hno
        exact hno hx
      · simp [SessionCommand.ends] at hx
    · intro e₁ he₁
      rw [hentry e₁ he₁]
      exact (hp.reap_current now).trans hnew
    · obtain ⟨row', hr', hc'⟩ := hrow'
      refine ⟨row', hr', hc'.trans ?_⟩
      exact SessionEntry.reap_currentGen ..

theorem traced_run (policy : SessionPolicy) {ops : List Op} (hf : Fresh ops) :
    (runs policy ops).Kept policy ∧ (runs policy ops).Traced :=
  fresh_invariant (fun m => m.Kept policy ∧ m.Traced)
    ⟨kept_withDurability policy, traced_withDurability policy⟩
    (fun _ _ _ h hm => ⟨h.1.move hm, h.2.move h.1.wf hm⟩) (hf.from policy)

/-- **After any run** the cookie held is that of a current generation. -/
theorem heldBy_run {policy : SessionPolicy} {ops : List Op} (hf : Fresh ops)
    (hp : Presents policy ops) {held : SessionToken}
    (hheld : (Client.runs policy ops).held = some held) :
    ∃ sid g, (runs policy ops).HeldBy held.hash sid g := by
  induction ops using List.reverseRecOn generalizing held with
  | nil => cases hheld
  | append_singleton ops op ih =>
    obtain ⟨hk, ht⟩ := traced_run policy hf.of_append
    have hfresh : op.FreshIn (runs policy ops) := (hf.from policy).freshIn
    have hstep : runs policy (ops ++ [op]) = (runs policy ops).step op := run_concat ..
    have hcookie : (((runs policy ops).call op).2.cookie.or (Client.runs policy ops).held) =
        some held := by
      rw [Client.runs, run_concat] at hheld
      rw [← Client.runs_map]
      exact hheld
    -- a call that sets no cookie
    have none : op.draws = none → ((runs policy ops).call op).2.cookie = none →
        ∃ sid g, (runs policy (ops ++ [op])).HeldBy held.hash sid g := by
      intro hd hc
      rw [hc, Option.none_or] at hcookie
      obtain ⟨sid, g, h⟩ := ih hf.of_append hp.of_append hcookie
      refine ⟨sid, g, ?_⟩
      rw [hstep]
      exact (moves_invariant (fun m => m.Kept policy ∧ m.HeldBy held.hash sid g)
        (fun _ _ h hm => ⟨h.1.move hm, h.2.move h.1 hd hm⟩) (step_moves hfresh) ⟨hk, h⟩).2
    cases op with
    | create sid custody sub token now =>
      obtain rfl : token = held := Option.some.inj hcookie
      rw [hstep]
      exact ⟨sid, _, heldBy_create ht (hfresh.1 _ rfl)⟩
    | refresh hash token now =>
      obtain ⟨held', hheld', rfl⟩ := hp ops hash token now [] rfl
      obtain ⟨sid, g, h⟩ := ih hf.of_append hp.of_append hheld'
      rw [hstep]
      rcases (runs policy ops).call_refresh held'.hash token now with
        ⟨reason, hc⟩ | ⟨sid', e, e', cookies, effects, hi, he, hr, hc⟩
      · rw [hc] at hcookie
        obtain rfl : held' = held := Option.some.inj (hheld'.symm.trans hcookie)
        rw [step, hc]
        exact ⟨sid, g, h⟩
      · rw [hc] at hcookie
        obtain rfl : cookies.token = held := Option.some.inj hcookie
        rw [step, hc]
        exact ⟨sid', h.commit hk ht (hfresh.1 _ rfl) hi he hr⟩
    | tombstone => exact none rfl rfl
    | tombstoneByCustody => exact none rfl rfl
    | setCustodyStatus => exact none rfl rfl
    | sweep => exact none rfl rfl

end SessionMap

/-! ## A committed prefix -/

namespace Tables

/-- Later commands keep a stored row, its absolute expiry and its death. -/
theorem rowOf_grows {sid : Sid} {cmds : List SessionCommand} {t t' : Tables} {row : SessionRow}
    (ha : t.applyAll cmds = some t') (hr : t.rowOf sid = some row) :
    ∃ row', t'.rowOf sid = some row' ∧ row'.absoluteExp = row.absoluteExp ∧
      (row.status = .tombstoned → row'.status = .tombstoned) := by
  induction cmds generalizing t row with
  | nil =>
    cases ha
    exact ⟨row, hr, rfl, id⟩
  | cons c cmds ih =>
    rw [applyAll_cons, Option.bind_eq_some_iff] at ha
    obtain ⟨t₁, h₁, h₂⟩ := ha
    obtain ⟨row₁, hr₁, habs, hdead⟩ : ∃ row₁, t₁.rowOf sid = some row₁ ∧
        row₁.absoluteExp = row.absoluteExp ∧
        (row.status = .tombstoned → row₁.status = .tombstoned) := by
      rw [rowOf_applyCommand sid h₁, hr]
      cases c with
      | insertSession row' =>
        -- the primary key is taken
        have hne : row'.sid ≠ sid := by
          rintro rfl
          obtain ⟨r, hmem, hrow, hsid⟩ := mem_of_rowOf hr
          have hany : (t.session.any fun s => s.row.sid = row'.sid) = true :=
            List.any_eq_true.2 ⟨r, hmem, decide_eq_true (hrow ▸ hsid)⟩
          simp [applyCommand, insertSession, hany] at h₁
        exact ⟨row, if_neg hne, rfl, id⟩
      | updateSessionProgress sid' currentGen idleExp =>
        by_cases hx : sid' = sid
        · exact ⟨_, if_pos hx, rfl, id⟩
        · exact ⟨_, if_neg hx, rfl, id⟩
      | tombstoneSession sid' now =>
        by_cases hx : sid' = sid
        · exact ⟨_, if_pos hx, rfl, fun _ => rfl⟩
        · exact ⟨_, if_neg hx, rfl, id⟩
      | insertGeneration | supersedeGeneration | deleteGeneration => exact ⟨row, rfl, rfl, id⟩
    obtain ⟨row', hr', habs', hdead'⟩ := ih h₂ hr₁
    exact ⟨row', hr', habs'.trans habs, fun hx => hdead' (hdead hx)⟩

/-- What is stored was issued by the commands. -/
theorem issued_of_mem {t : Tables} {custody : List CustodyRow} {cmds : List SessionCommand}
    {sid : Sid} {g : Generation} (ha : (Tables.fresh custody).applyAll cmds = some t)
    (hg : g ∈ t.gensOf sid) : g.tokenHash ∈ cmds.filterMap SessionCommand.issues := by
  have hsub : (t.gensOf sid).Sublist (cmds.foldl (SessionCommand.record sid) []) :=
    gensOf_applyAll ha (List.Sublist.refl [])
  -- a map with this queue
  let m : SessionMap := { SessionMap.withDurability {} with queue := cmds }
  have hin : g ∈ m.history sid := hsub.subset hg
  have hto : g.tokenHash ∈ m.issuedTo sid := by
    rw [← SessionMap.map_hash_history]
    exact List.mem_map_of_mem hin
  exact (m.issuedTo_sublist sid).subset hto

end Tables

/-- What a rebuilt map knows is stored. -/
theorem Tables.Keyed.stored_of_resolved {t : Tables} (h : t.Keyed) (policy : SessionPolicy)
    {hash : TokenHash} {now : Timestamp} (hr : (restart policy t).resolve hash now ≠ .unknown) :
    ∃ r ∈ t.session, r.row.status = .alive ∧
      hash ∈ (t.gensOf r.row.sid).map (·.tokenHash) := by
  obtain ⟨sid, e, he, hh, -⟩ := (Tables.restart_holds h policy).index.resolved hr
  obtain ⟨r, hr, rfl, ha, -, rfl⟩ := (Tables.restart_sessions h policy).1 he
  refine ⟨r, hr, ha, ?_⟩
  rcases List.mem_append.1 hh with hh | hh
  · obtain ⟨g, hg, rfl⟩ := List.mem_map.1 hh
    exact List.mem_map_of_mem (Tables.mem_bootGens.1 hg)
  · cases hh

/-- A rebuilt session and a stored generation of it that was not superseded:
    when that can refresh. -/
theorem Tables.Keyed.restart_refreshable {t : Tables} (h : t.Keyed) (policy : SessionPolicy)
    {sid : Sid} {row : SessionRow} {g : Generation} (hr : t.rowOf sid = some row)
    (hg : g ∈ t.gensOf sid) (hn : g.supersededAt = none) (now : Timestamp) :
    ((restart policy t).resolve g.tokenHash now).refreshable = true ↔
      row.status = .alive ∧ now < row.absoluteExp ∧ now < row.idleExp ∧
        (now < g.activeUntil ∨ g.genNo = row.currentGen) := by
  have hheld := Tables.restart_holds h policy
  obtain ⟨r, hmem, rfl, hsid⟩ := Tables.mem_of_rowOf hr
  by_cases ha : r.row.status = .alive
  · have hne : t.rowsOf sid ≠ [] := fun hx => by
      rw [Tables.gensOf, hx] at hg
      cases hg
    set e := r.row.restoredEntry ((t.bootRowsOf sid).map (·.toGeneration)) with he
    have hs : (restart policy t).sessions sid = some e :=
      (Tables.restart_sessions h policy).2 ⟨r, hmem, hsid, ha, hne, rfl⟩
    have hge : g ∈ e.gens := Tables.mem_bootGens.2 hg
    have hin : g.tokenHash ∈ e.allHashes := List.mem_append_left _ (List.mem_map_of_mem hge)
    have hval : g.resourceValidUntil policy.graceSecs = g.activeUntil := by
      rw [Generation.resourceValidUntil, hn]
    rw [hheld.index.resolve hs hin, hheld.policy]
    cases hx : e.sessionExpiry now policy with
    | none =>
      obtain ⟨-, habs, hidle, -⟩ := SessionEntry.sessionExpiry_eq_none.1 hx
      have hcur : e.currentGen = r.row.currentGen := rfl
      rw [SessionEntry.classify_of_mem (h.bootGens_nodup sid) hx hge, hval, hcur]
      have habs' : now < r.row.absoluteExp := habs
      have hidle' : now < r.row.idleExp := hidle
      simp only [ha, habs', hidle', true_and]
      split_ifs with h₁ h₂ <;> simp [Resolution.refreshable, *]
    | some reason =>
      have hno : ¬ (now < r.row.absoluteExp ∧ now < r.row.idleExp) := fun hlt => by
        have hnone : e.sessionExpiry now policy = none :=
          SessionEntry.sessionExpiry_eq_none.2 ⟨rfl, hlt.1, hlt.2, fun h => by cases h.1⟩
        rw [hnone] at hx
        cases hx
      constructor
      · intro hc
        simp [SessionEntry.classify, hx, Resolution.refreshable] at hc
      · rintro ⟨-, h₁, h₂, -⟩
        exact absurd ⟨h₁, h₂⟩ hno
  · -- a dead row is not rebuilt
    refine iff_of_false (fun hc => ?_) fun hx => ha hx.1
    obtain ⟨r', hr', ha', hst⟩ := h.stored_of_resolved policy (show
      (restart policy t).resolve g.tokenHash now ≠ .unknown from fun hx => by rw [hx] at hc; cases hc)
    have hsame : r'.row.sid = sid := by
      by_contra hne
      exact h.disjoint hne (List.mem_map_of_mem hg) hst
    rw [List.inj_on_of_nodup_map h.session hr' hmem (hsame.trans hsid.symm)] at ha'
    exact ha ha'

namespace SessionMap

/-- The session of the cookie `hash`, as it was last: its row, and the
    generation of the cookie. -/
structure Last (m : SessionMap) (hash : TokenHash) (row : SessionRow) (g : Generation) : Prop where
  hash : g.tokenHash = hash
  issued : g.tokenHash ∈ m.issuedTo row.sid
  written : m.row row.sid = some row
  genNo : g.genNo = row.currentGen
  entry : ∀ e, m.sessions row.sid = some e → row.Mirrors e ∧ e.current = g

/-- From `now` on the cookie refreshes in `m`, until its session ends. -/
def Recovers (m : SessionMap) (hash : TokenHash) (row : SessionRow) (now : Timestamp) : Prop :=
  row.status = .alive → ∀ t, now ≤ t → t < row.idleExp → t < row.absoluteExp →
    ∀ token, ∃ m' cookies, m.refresh hash token t = (m', .ok cookies)

/-- The generation of the cookie held is stored as soon as it was sent. -/
theorem HeldBy.stored {m : SessionMap} {hash : TokenHash} {sid : Sid} {g : Generation}
    (h : m.HeldBy hash sid g) (hn : m.issued.Nodup) {p : List SessionCommand} (hp : p <+: m.queue)
    {t t' : Tables} (ha : t.applyAll p = some t')
    (hi : g.tokenHash ∈ p.filterMap SessionCommand.issues) : g ∈ t'.gensOf sid := by
  obtain ⟨q₁, q₂, hq⟩ := List.append_of_mem h.issued
  have hno : g.tokenHash ∉ q₁.filterMap SessionCommand.issues := by
    intro hx
    rw [SessionMap.issued, hq, List.filterMap_append, List.nodup_append] at hn
    exact hn.2.2 _ hx g.tokenHash (by simp [SessionCommand.issues]) rfl
  have hkept : ∀ c ∈ p, c.ends ≠ some g.tokenHash := fun c hc hx =>
    h.kept (List.mem_filterMap.2 ⟨c, hp.subset hc, hx⟩)
  have hpre : q₁ ++ [.insertGeneration sid g.genNo g.tokenHash g.createdAt g.activeUntil] <+:
      m.queue := by
    rw [hq]
    simp
  rcases Nat.lt_or_ge q₁.length p.length with hl | hl
  · obtain ⟨p₂, rfl⟩ := List.prefix_of_prefix_length_le hpre hp (by
      rw [List.length_append, List.length_singleton]
      exact hl)
    rw [List.append_assoc, Tables.applyAll_append, Option.bind_eq_some_iff] at ha
    obtain ⟨t₁, -, ha⟩ := ha
    rw [List.singleton_append, Tables.applyAll_cons, Option.bind_eq_some_iff] at ha
    obtain ⟨t₂, h₂, h₃⟩ := ha
    have hin : g ∈ t₂.gensOf sid := by
      simp only [Tables.applyCommand, Tables.insertGeneration] at h₂
      split_ifs at h₂
      cases h₂
      rw [Tables.mem_gensOf]
      refine ⟨_, List.mem_append_right _ (List.mem_singleton_self _), rfl, ?_⟩
      rw [GenerationRow.toGeneration, ← h.unsuperseded]
    refine Tables.mem_gensOf_applyAll h₃ hin (fun s hx => ?_) fun hx => ?_
    · exact hkept _ (List.mem_append_right _ hx) rfl
    · exact hkept _ (List.mem_append_right _ hx) rfl
  · have hpq : p <+: q₁ := List.prefix_of_prefix_length_le hp ⟨_, hq.symm⟩ hl
    exact absurd ((hpq.filterMap _).subset hi) hno

/-- The commands bring the generation `g`, leave an idle expiry no earlier than
    the last one, and name `g` if its own time may be over first. -/
def Saves (cmds : List SessionCommand) (row : SessionRow) (g : Generation) : Prop :=
  g.tokenHash ∈ cmds.filterMap SessionCommand.issues ∧
    ∃ stored, cmds.foldl (SessionCommand.writeRow row.sid) none = some stored ∧
      row.idleExp ≤ stored.idleExp ∧
      (stored.currentGen = row.currentGen ∨ row.idleExp ≤ g.activeUntil)

/-- **What a lost tail costs the client.** -/
theorem lost_tail_iff (policy : SessionPolicy) (custody : List CustodyRow) (ops : List Op)
    (hf : Fresh ops) (hc : ∀ op ∈ ops, op.CustodyOnFile custody) (hp : Presents policy ops)
    (held : SessionToken) (hheld : (Client.runs policy ops).held = some held) :
    ∃ row g, (runs policy ops).Last held.hash row g ∧
      ∀ p, p <+: (runs policy ops).queue → row.sid ∈ p.filterMap SessionCommand.creates →
        ∃ t, (Tables.fresh custody).applyAll p = some t ∧ ∀ now,
          ((restart policy t).Recovers held.hash row now ↔
            row.status = .tombstoned ∨ row.idleExp ≤ now ∨ Saves p row g) := by
  obtain ⟨sid, g, h⟩ := heldBy_run hf hp hheld
  have hsync := synced_run policy hf hc
  have hk := kept_run policy hf
  obtain ⟨tₙ, haₙ, -, hsₙ⟩ := id hsync
  obtain ⟨row, hrow, hgen⟩ := h.row
  have hrowₙ : tₙ.rowOf sid = some row := by
    rw [Tables.rowOf_applyAll sid haₙ]
    exact hrow
  obtain ⟨rₙ, hrₙ, rfl, rfl⟩ := Tables.mem_of_rowOf hrowₙ
  have hidle : rₙ.row.idleExp ≤ rₙ.row.absoluteExp := (hsₙ.whole rₙ hrₙ).idle
  refine ⟨rₙ.row, g, ⟨h.hash, h.issuedTo, hrow, hgen.symm, fun e he => ⟨?_, h.entry e he⟩⟩,
    fun p hpre hcr => ?_⟩
  · obtain ⟨row', hr', hm⟩ := hsync.row hk.wf he
    rw [hrow] at hr'
    cases hr'
    exact hm
  obtain ⟨t, ht⟩ := Tables.applyAll_prefix hpre haₙ
  have hkeyed : t.Keyed :=
    Tables.Keyed.applyAll (t := Tables.fresh custody) ⟨List.nodup_nil, List.nodup_nil⟩ ht
  -- the row after the prefix
  obtain ⟨r, hr, hrs⟩ := Tables.hasRow_of_created ht hcr
  have hrowt : t.rowOf rₙ.row.sid = some r.row := by
    rw [← hrs]
    exact hkeyed.rowOf_eq hr
  have hfold : p.foldl (SessionCommand.writeRow rₙ.row.sid) none = some r.row := by
    rw [← hrowt, Tables.rowOf_applyAll _ ht]
    rfl
  obtain ⟨habs, hdead⟩ : rₙ.row.absoluteExp = r.row.absoluteExp ∧
      (r.row.status = .tombstoned → rₙ.row.status = .tombstoned) := by
    obtain ⟨q, hq⟩ := hpre
    rw [← hq, Tables.applyAll_append, ht] at haₙ
    obtain ⟨row', hr', h₁, h₂⟩ := Tables.rowOf_grows haₙ hrowt
    rw [hrowₙ] at hr'
    cases hr'
    exact ⟨h₁, h₂⟩
  refine ⟨t, ht, fun now => ⟨fun hrec => ?_, fun hcase halive t' ht' hlt habs' token => ?_⟩⟩
  · by_cases hal : rₙ.row.status = .alive
    · rcases le_or_gt rₙ.row.idleExp now with hlate | hlt
      · exact Or.inr (Or.inl hlate)
      · right
        right
        have hres : ∀ t', now ≤ t' → t' < rₙ.row.idleExp →
            ((restart policy t).resolve held.hash t').refreshable = true := fun t' h₁ h₂ =>
          (refresh_ok_iff held).1 (hrec hal t' h₁ h₂ (h₂.trans_le hidle) held)
        have hknown : (restart policy t).resolve held.hash now ≠ .unknown := fun hx => by
          have := hres now le_rfl hlt
          rw [hx] at this
          cases this
        obtain ⟨r', -, -, hst⟩ := hkeyed.stored_of_resolved policy hknown
        obtain ⟨g', hg', hgh⟩ := List.mem_map.1 hst
        have hiss : g.tokenHash ∈ p.filterMap SessionCommand.issues := by
          rw [h.hash, ← hgh]
          exact Tables.issued_of_mem ht hg'
        have hin := h.stored hk.killings.issued hpre ht hiss
        have hiff := hkeyed.restart_refreshable policy hrowt hin h.unsuperseded
        rw [← h.hash] at hres
        refine ⟨hiss, r.row, hfold, ?_, ?_⟩
        · by_contra hx
          have hmax : max now r.row.idleExp < rₙ.row.idleExp := max_lt hlt (not_le.1 hx)
          have hlate := ((hiff _).1 (hres _ (le_max_left _ _) hmax)).2.2.1
          exact absurd (le_max_right _ _) (not_le.2 hlate)
        · by_contra hx
          rw [not_or, not_le] at hx
          have hmax : max now g.activeUntil < rₙ.row.idleExp := max_lt hlt hx.2
          rcases ((hiff _).1 (hres _ (le_max_left _ _) hmax)).2.2.2 with hy | hy
          · exact absurd (le_max_right _ _) (not_le.2 hy)
          · exact hx.1 (hy.symm.trans hgen.symm)
    · left
      cases hst : rₙ.row.status with
      | alive => exact absurd hst hal
      | tombstoned => rfl
  · rcases hcase with hx | hx | ⟨hiss, stored, hst, hid, hcur⟩
    · rw [halive] at hx
      cases hx
    · exact absurd (hx.trans ht') (not_le.2 hlt)
    · rw [hfold] at hst
      cases hst
      have hin := h.stored hk.killings.issued hpre ht hiss
      rw [refresh_ok_iff token, ← h.hash,
        hkeyed.restart_refreshable policy hrowt hin h.unsuperseded]
      refine ⟨?_, habs ▸ habs', hlt.trans_le hid, ?_⟩
      · cases hst : r.row.status with
        | alive => rfl
        | tombstoned =>
          rw [hdead hst] at halive
          cases halive
      · rcases hcur with hcur | hcur
        · exact Or.inr (hgen.symm.trans hcur.symm)
        · exact Or.inl (hlt.trans_le hcur)

/-- A login, and a refresh with the cookie it set. -/
theorem presents_login_refresh : Presents {} [.create ⟨"s"⟩ ⟨"c"⟩ "alice" .sample1 ⟨0⟩,
    .refresh SessionToken.sample1.hash .sample2 ⟨100⟩] := by
  intro before hash token now later hops
  rcases before with _ | ⟨_, _ | ⟨_, before⟩⟩
  · cases hops
  · cases hops
    exact ⟨.sample1, rfl, rfl⟩
  · have hlen := congrArg List.length hops
    simp at hlen

/-- A refresh lost: the new cookie is unknown, the replaced one is gone. -/
theorem lost_tail_logs_out :
    let ops := [Op.create ⟨"s"⟩ ⟨"c"⟩ "alice" .sample1 ⟨0⟩,
      .refresh SessionToken.sample1.hash .sample2 ⟨100⟩]
    let p := (runs {} ops).queue.take 2
    Fresh ops ∧ (∀ op ∈ ops, op.CustodyOnFile [⟨⟨"c"⟩, "p"⟩]) ∧ Presents {} ops ∧
      (Client.runs {} ops).held = some .sample2 ∧ p <+: (runs {} ops).queue ∧
      p.filterMap SessionCommand.creates = [⟨"s"⟩] ∧
      p.filterMap SessionCommand.issues = [SessionToken.sample1.hash] ∧
      ((runs {} ops).sessions ⟨"s"⟩).map (fun e => (e.status, e.idleExp, e.absoluteExp)) =
        some (.alive, ⟨604900⟩, ⟨2592000⟩) ∧
      ∃ t, (Tables.fresh [⟨⟨"c"⟩, "p"⟩]).applyAll p = some t ∧
        ((restart {} t).refresh SessionToken.sample2.hash .sample3 ⟨101⟩).2 = .error .unknown := by
  intro ops p
  refine ⟨by decide, by simp [ops, Op.CustodyOnFile], presents_login_refresh, by decide,
    List.take_prefix .., by decide, by decide, by decide, ?_⟩
  obtain ⟨t, ht⟩ : ∃ t, (Tables.fresh [⟨⟨"c"⟩, "p"⟩]).applyAll p = some t :=
    Option.isSome_iff_exists.1 (by decide)
  have hrefresh : ((Tables.fresh [⟨⟨"c"⟩, "p"⟩]).applyAll p).map (fun t =>
      ((restart {} t).refresh SessionToken.sample2.hash .sample3 ⟨101⟩).2) =
      some (.error .unknown) := by decide
  rw [ht] at hrefresh
  exact ⟨t, ht, Option.some.inj hrefresh⟩

/-- At a concrete run: nothing was lost. -/
theorem lost_tail_iff_nothing_lost :
    let ops := [Op.create ⟨"s"⟩ ⟨"c"⟩ "alice" .sample1 ⟨0⟩,
      .refresh SessionToken.sample1.hash .sample2 ⟨100⟩]
    ∃ t, (Tables.fresh [⟨⟨"c"⟩, "p"⟩]).applyAll (runs {} ops).queue = some t ∧
      ∃ m cookies, (restart {} t).refresh SessionToken.sample2.hash .sample3 ⟨101⟩ =
        (m, .ok cookies) := by
  intro ops
  obtain ⟨row, g, hl, h⟩ := lost_tail_iff {} [⟨⟨"c"⟩, "p"⟩] ops (by decide)
    (by simp [ops, Op.CustodyOnFile]) presents_login_refresh .sample2 (by decide)
  have hsid : row.sid = ⟨"s"⟩ := by
    obtain ⟨c, hc, hx⟩ := List.mem_filterMap.1 hl.issued
    have hall : ∀ c ∈ (runs {} ops).queue,
        c.generationOf = none ∨ c.generationOf = some ⟨"s"⟩ := by decide
    cases c with
    | insertGeneration sid genNo hash createdAt activeUntil =>
      have hgen : sid = ⟨"s"⟩ := by simpa [SessionCommand.generationOf] using hall _ hc
      simp only [SessionCommand.issuesTo] at hx
      split_ifs at hx with hs
      exact hs.symm.trans hgen
    | _ => cases hx
  have hrow : (runs {} ops).row ⟨"s"⟩ = some row := hsid ▸ hl.written
  have hlast : ((runs {} ops).row ⟨"s"⟩).map (fun r => (r.status, r.idleExp, r.absoluteExp)) =
      some (.alive, ⟨604900⟩, ⟨2592000⟩) := by decide
  rw [hrow, Option.map_some, Option.some.injEq, Prod.mk.injEq, Prod.mk.injEq] at hlast
  obtain ⟨halive, hidle, habs⟩ := hlast
  obtain ⟨t, ht, hiff⟩ := h _ (List.prefix_refl _) (by rw [hsid]; decide)
  have hsaves : Saves (runs {} ops).queue row g := by
    refine ⟨by rw [hl.hash]; decide, row, hl.written, le_rfl, Or.inl rfl⟩
  exact ⟨t, ht, (hiff ⟨101⟩).2 (Or.inr (Or.inr hsaves)) halive ⟨101⟩ le_rfl
    (by rw [hidle]; decide) (by rw [habs]; decide) .sample3⟩

end SessionMap

end SessionBroker
