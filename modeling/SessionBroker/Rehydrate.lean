/-
  What a restart makes of the tables.

  * `mem_rehydrate`: the boot query and the grouping loop return, for every
    alive session with generations, its row and its generations by `gen_no`;
  * `restart_sessions` and `restart_wf`: the rebuilt map holds exactly these,
    and its index is exact.
-/
import SessionBroker.Invariant

namespace SessionBroker

namespace Tables

/-! ## The boot query -/

/-- The rows of one session, in storage order. -/
def rowsOf (t : Tables) (sid : Sid) : List GenerationRow :=
  t.generation.filter fun g => g.sid = sid

/-- The rows of one session as the boot query returns them. -/
def bootRowsOf (t : Tables) (sid : Sid) : List GenerationRow :=
  (t.generation.insertionSort fun g g' => g.genNo ≤ g'.genNo).filter fun g => g.sid = sid

/-- `sid` and `token_hash` are the primary keys. -/
structure Keyed (t : Tables) : Prop where
  session : (t.session.map (·.row.sid)).Nodup
  generation : (t.generation.map (·.tokenHash)).Nodup

theorem bootRowsOf_perm (t : Tables) (sid : Sid) : (t.bootRowsOf sid).Perm (t.rowsOf sid) :=
  (List.perm_insertionSort _ _).filter _

theorem bootRowsOf_sorted (t : Tables) (sid : Sid) :
    (t.bootRowsOf sid).Pairwise fun g g' => g.genNo ≤ g'.genNo := by
  have : IsTrans GenerationRow fun g g' => g.genNo ≤ g'.genNo := ⟨fun _ _ _ => Nat.le_trans⟩
  have : Std.Total fun g g' : GenerationRow => g.genNo ≤ g'.genNo := ⟨fun _ _ => Nat.le_total ..⟩
  exact (List.pairwise_insertionSort _ _).sublist List.filter_sublist

/-! ## The grouping loop -/

/-- A rehydrated session comes from the rows. -/
theorem groupRows_session {out : List RehydratedSession} {rows : List (SessionRow × GenerationRow)}
    {r : RehydratedSession} (h : r ∈ groupRows out rows) :
    r.session ∈ out.map (·.session) ∨ r.session ∈ rows.map (·.1) := by
  fun_induction groupRows out rows with
  | case1 out => exact Or.inl (List.mem_map_of_mem h)
  | case2 out s g rows last hl hs ih =>
    refine (ih h).imp (fun hr => ?_) (List.mem_cons_of_mem _)
    obtain ⟨r', hr', hx⟩ := List.mem_map.1 hr
    rw [← hx]
    rcases List.mem_append.1 hr' with hr' | hr'
    · exact List.mem_map_of_mem (List.dropLast_subset _ hr')
    · rw [List.mem_singleton.1 hr']
      exact List.mem_map_of_mem (f := (·.session)) (List.mem_of_getLast? hl)
  | case3 out s g rows last hl hs ih =>
    rw [List.map_append, List.mem_append] at ih
    rcases ih h with (hr | hr) | hr
    · exact Or.inl hr
    · exact Or.inr (by simpa using Or.inl (List.mem_singleton.1 hr))
    · exact Or.inr (List.mem_cons_of_mem _ hr)
  | case4 out s g rows hl ih =>
    rcases ih h with hr | hr
    · exact Or.inr (by simpa using Or.inl (List.mem_singleton.1 hr))
    · exact Or.inr (List.mem_cons_of_mem _ hr)

theorem rehydrate_alive {t : Tables} {r : RehydratedSession} (h : r ∈ t.rehydrate) :
    (∃ s ∈ t.session, s.row = r.session) ∧ r.session.status = .alive := by
  rcases groupRows_session h with h | h
  · cases h
  · simp only [bootRows, List.map_flatMap, List.map_map, List.mem_flatMap, List.mem_filter,
      List.mem_insertionSort, List.mem_map, decide_eq_true_eq] at h
    obtain ⟨s, ⟨⟨s', hs, rfl⟩, ha⟩, g, -, hg⟩ := h
    exact ⟨⟨s', hs, hg⟩, by rw [← hg]; exact ha⟩

/-- Rows of the session last pushed join it. -/
theorem groupRows_join (out : List RehydratedSession) (s : SessionRow) (acc gs : List GenerationRow)
    (rows : List (SessionRow × GenerationRow)) :
    groupRows (out ++ [⟨s, acc⟩]) (gs.map (fun g => (s, g)) ++ rows) =
      groupRows (out ++ [⟨s, acc ++ gs⟩]) rows := by
  induction gs generalizing acc with
  | nil => simp
  | cons g gs ih =>
    rw [List.map_cons, List.cons_append, groupRows]
    simp only [List.getLast?_append, List.getLast?_singleton, Option.some_or, if_true,
      List.dropLast_concat, ih, List.append_assoc, List.singleton_append]

/-- Rows of another session start a new one. -/
theorem groupRows_start {out : List RehydratedSession} {s : SessionRow}
    (h : ∀ r ∈ out, r.session.sid ≠ s.sid) (g : GenerationRow) (gs : List GenerationRow)
    (rows : List (SessionRow × GenerationRow)) :
    groupRows out ((g :: gs).map (fun g => (s, g)) ++ rows) =
      groupRows (out ++ [⟨s, g :: gs⟩]) rows := by
  rw [List.map_cons, List.cons_append, groupRows]
  cases hl : out.getLast? with
  | none =>
    rw [List.getLast?_eq_none_iff] at hl
    subst hl
    exact groupRows_join [] s [g] gs rows
  | some last =>
    simp only [if_neg (h last (List.mem_of_getLast? hl))]
    exact groupRows_join out s [g] gs rows

theorem groupRows_blocks (gs : SessionRow → List GenerationRow) (ss : List SessionRow)
    (out : List RehydratedSession) (hn : (ss.map (·.sid)).Nodup)
    (h : ∀ r ∈ out, ∀ s ∈ ss, r.session.sid ≠ s.sid) :
    groupRows out (ss.flatMap fun s => (gs s).map fun g => (s, g)) =
      out ++ (ss.filter fun s => gs s ≠ []).map fun s => ⟨s, gs s⟩ := by
  induction ss generalizing out with
  | nil => simp [groupRows]
  | cons s ss ih =>
    rw [List.map_cons, List.nodup_cons] at hn
    have hout : ∀ r ∈ out, ∀ s' ∈ ss, r.session.sid ≠ s'.sid :=
      fun r hr s' hs' => h r hr s' (List.mem_cons_of_mem _ hs')
    rw [List.flatMap_cons]
    cases hg : gs s with
    | nil => simp only [List.map_nil, List.nil_append, ih out hn.2 hout, List.filter_cons, hg]; simp
    | cons g gs' =>
      rw [groupRows_start (fun r hr => h r hr s List.mem_cons_self), ih _ hn.2]
      · simp [hg]
      · intro r hr s' hs'
        rcases List.mem_append.1 hr with hr | hr
        · exact hout r hr s' hs'
        · rw [List.mem_singleton.1 hr]
          exact fun hx => hn.1 (List.mem_map.2 ⟨s', hs', hx.symm⟩)

/-- The alive sessions in the order of the boot query. -/
def bootSessions (t : Tables) : List SessionRow :=
  ((t.session.map (·.row)).insertionSort fun s s' => s.sid.id ≤ s'.sid.id).filter fun s =>
    s.status = .alive

theorem mem_bootSessions {t : Tables} {s : SessionRow} :
    s ∈ t.bootSessions ↔ (∃ r ∈ t.session, r.row = s) ∧ s.status = .alive := by
  simp [bootSessions]

theorem bootSessions_nodup {t : Tables} (h : t.Keyed) : (t.bootSessions.map (·.sid)).Nodup := by
  have hp : ((t.session.map (·.row)).map (·.sid)).Nodup := by
    rw [List.map_map]; exact h.session
  have hs : ((((t.session.map (·.row)).insertionSort fun s s' => s.sid.id ≤ s'.sid.id)).map
      (·.sid)).Nodup := ((List.perm_insertionSort _ _).map _).nodup_iff.2 hp
  exact hs.sublist (List.filter_sublist.map _)

/-- **The boot-time load.** -/
theorem rehydrate_eq {t : Tables} (h : t.Keyed) :
    t.rehydrate = (t.bootSessions.filter fun s => t.bootRowsOf s.sid ≠ []).map fun s =>
      ⟨s, t.bootRowsOf s.sid⟩ :=
  groupRows_blocks (fun s => t.bootRowsOf s.sid) t.bootSessions [] (bootSessions_nodup h) (fun _ h => by cases h)

theorem mem_rehydrate {t : Tables} (h : t.Keyed) {r : RehydratedSession} :
    r ∈ t.rehydrate ↔ (∃ s ∈ t.session, s.row = r.session) ∧ r.session.status = .alive ∧
      r.generations = t.bootRowsOf r.session.sid ∧ r.generations ≠ [] := by
  rw [rehydrate_eq h]
  simp only [List.mem_map, List.mem_filter, mem_bootSessions, decide_eq_true_eq]
  constructor
  · rintro ⟨s, ⟨⟨hs, ha⟩, hg⟩, rfl⟩
    exact ⟨hs, ha, rfl, hg⟩
  · rintro ⟨hs, ha, hg, hne⟩
    obtain ⟨s, gs⟩ := r
    exact ⟨s, ⟨⟨hs, ha⟩, hg ▸ hne⟩, by rw [← hg]⟩

/-- The rehydrated sessions are distinct, and so are their hashes. -/
theorem rehydrate_nodup {t : Tables} (h : t.Keyed) :
    (t.rehydrate.map (·.session.sid)).Nodup := by
  rw [rehydrate_eq h, List.map_map]
  exact (bootSessions_nodup h).sublist (List.filter_sublist.map _)

end Tables

/-! ## The rebuilt map -/

/-- The entry `rehydrate_session` makes of a session row and its sorted
    generations. -/
def SessionRow.restoredEntry (row : SessionRow) (gens : List Generation) : SessionEntry where
  sid := row.sid
  custody := row.custodyId
  sub := row.sub
  gens := gens
  currentGen := row.currentGen
  currentToken := none
  idleExp := row.idleExp
  absoluteExp := row.absoluteExp
  status := .alive
  tombstonedAt := none
  custodyStatus := .ok
  retired := []

namespace SessionMap

theorem foldl_indexInsert (gens : List Generation) (m : SessionMap) (sid : Sid) :
    gens.foldl (fun m g => m.indexInsert g.tokenHash sid) m =
      { m with index := fun hash =>
          if hash ∈ gens.map (·.tokenHash) then some sid else m.index hash } := by
  induction gens generalizing m with
  | nil => simp
  | cons g gens ih =>
    rw [List.foldl_cons, ih]
    simp only [indexInsert, List.map_cons, List.mem_cons, mk.injEq, true_and, and_true]
    funext hash
    by_cases hh : hash = g.tokenHash <;> by_cases hm : hash ∈ gens.map (·.tokenHash) <;>
      simp [hh, hm]

/-- `rehydrate_session` on generations already in order. -/
theorem rehydrateSession_eq {m : SessionMap} {row : SessionRow} {gs : List GenerationRow}
    (hne : gs ≠ []) (hs : gs.Pairwise fun g g' => g.genNo ≤ g'.genNo) :
    (m.rehydrateSession (RehydratedSession.restored ⟨row, gs⟩)).1 =
      { m with
        sessions := Function.update m.sessions row.sid
          (some (row.restoredEntry (gs.map (·.toGeneration))))
        index := fun hash =>
          if hash ∈ gs.map (·.tokenHash) then some row.sid else m.index hash } := by
  have hsort : (gs.map (·.toGeneration)).insertionSort (fun g h => g.genNo ≤ h.genNo) =
      gs.map (·.toGeneration) :=
    List.Pairwise.insertionSort_eq (List.pairwise_map.2 hs)
  have hmap : (gs.map (·.toGeneration)).map (·.tokenHash) = gs.map (·.tokenHash) := by
    rw [List.map_map]; rfl
  simp only [rehydrateSession, RehydratedSession.restored, List.map_eq_nil_iff, hne, if_false,
    hsort, foldl_indexInsert, hmap]
  rfl

/-- The rebuilt map holds the sessions of `rs`, and indexes their hashes. -/
structure Holds (m : SessionMap) (policy : SessionPolicy) (rs : List RehydratedSession) :
    Prop where
  policy : m.policy = policy
  queue : m.queue = []
  sessions : ∀ sid e, m.sessions sid = some e ↔ ∃ r ∈ rs, r.session.sid = sid ∧
    e = r.session.restoredEntry (r.generations.map (·.toGeneration))
  index : m.IndexExact

theorem restoredEntry_allHashes (row : SessionRow) (gs : List GenerationRow) :
    (row.restoredEntry (gs.map (·.toGeneration))).allHashes = gs.map (·.tokenHash) := by
  simp only [SessionEntry.allHashes, SessionRow.restoredEntry, List.map_nil, List.append_nil,
    List.map_map]
  rfl

theorem Holds.step {m : SessionMap} {policy : SessionPolicy} {rs : List RehydratedSession}
    {row : SessionRow} {gs : List GenerationRow} (h : m.Holds policy rs) (hne : gs ≠ [])
    (hs : gs.Pairwise fun g g' => g.genNo ≤ g'.genNo) (hsid : ∀ r ∈ rs, r.session.sid ≠ row.sid)
    (hh : ∀ r ∈ rs, ∀ g ∈ r.generations, ∀ g' ∈ gs, g.tokenHash ≠ g'.tokenHash) :
    ((m.rehydrateSession (RehydratedSession.restored ⟨row, gs⟩)).1).Holds policy
      (rs ++ [⟨row, gs⟩]) := by
  have hnew : m.sessions row.sid = none := by
    cases he : m.sessions row.sid with
    | none => rfl
    | some e =>
      obtain ⟨r, hr, hx, -⟩ := (h.sessions row.sid e).1 he
      exact absurd hx (hsid r hr)
  rw [rehydrateSession_eq hne hs]
  refine ⟨h.policy, h.queue, fun sid e => ?_, fun hash sid => ?_⟩
  · simp only [Function.update_apply, List.mem_append, List.mem_singleton]
    by_cases hx : sid = row.sid
    · subst hx
      rw [if_pos rfl]
      constructor
      · rintro ⟨⟩; exact ⟨_, Or.inr rfl, rfl, rfl⟩
      · rintro ⟨r, hr | rfl, hx, rfl⟩
        · exact absurd hx (hsid r hr)
        · rfl
    · rw [if_neg hx, h.sessions]
      constructor
      · rintro ⟨r, hr, hrs, he⟩; exact ⟨r, Or.inl hr, hrs, he⟩
      · rintro ⟨r, hr | rfl, hrs, he⟩
        · exact ⟨r, hr, hrs, he⟩
        · exact absurd hrs.symm hx
  · simp only [Function.update_apply]
    by_cases hx : sid = row.sid
    · subst hx
      have hno : m.index hash ≠ some row.sid := fun hi => by
        obtain ⟨e, he, -⟩ := (h.index hash _).1 hi; rw [hnew] at he; cases he
      rw [if_pos rfl]
      simp only [Option.some.injEq, exists_eq_left', restoredEntry_allHashes]
      split_ifs with hi <;> simp [hi, hno]
    · rw [if_neg hx, ← h.index hash sid]
      split_ifs with hi
      · refine ⟨fun hy => absurd (Option.some.inj hy).symm hx, fun hy => ?_⟩
        obtain ⟨e, he, hm⟩ := (h.index hash sid).1 hy
        obtain ⟨r, hr, -, rfl⟩ := (h.sessions sid e).1 he
        rw [restoredEntry_allHashes] at hm
        obtain ⟨g, hg, rfl⟩ := List.mem_map.1 hm
        obtain ⟨g', hg', hgg⟩ := List.mem_map.1 hi
        exact absurd hgg.symm (hh r hr g hg g' hg')
      · exact Iff.rfl

end SessionMap

namespace Tables

/-- **A restart holds what was rehydrated.** -/
theorem restart_holds {t : Tables} (h : t.Keyed) (policy : SessionPolicy) :
    (restart policy t).Holds policy t.rehydrate := by
  have hall : ∀ r ∈ t.rehydrate, r.generations = t.bootRowsOf r.session.sid ∧ r.generations ≠ [] :=
    fun r hr => ((mem_rehydrate h).1 hr).2.2
  have hnd := rehydrate_nodup h
  unfold restart rehydrateSessions
  generalize t.rehydrate = rs at hall hnd
  induction rs using List.reverseRecOn with
  | nil => exact ⟨rfl, rfl, by simp [SessionMap.withDurability],
      fun hash sid => by simp [SessionMap.withDurability]⟩
  | append_singleton rs r ih =>
    rw [List.foldl_append, List.foldl_cons, List.foldl_nil]
    rw [List.map_append, List.nodup_append] at hnd
    have hr := hall r (List.mem_append_right _ (List.mem_singleton_self r))
    have hsid : ∀ r' ∈ rs, r'.session.sid ≠ r.session.sid := fun r' hr' =>
      hnd.2.2 _ (List.mem_map_of_mem hr') _ (by simp)
    refine (ih (fun r' hr' => hall r' (List.mem_append_left _ hr')) hnd.1).step hr.2
      (hr.1 ▸ t.bootRowsOf_sorted _) hsid fun r' hr' g hg g' hg' hgg => ?_
    -- two rows with one hash are one row, of one session
    rw [(hall r' (List.mem_append_left _ hr')).1] at hg
    rw [hr.1] at hg'
    simp only [bootRowsOf, List.mem_filter, List.mem_insertionSort, decide_eq_true_eq] at hg hg'
    have hx := List.inj_on_of_nodup_map h.generation hg.1 hg'.1 hgg
    exact hsid r' hr' (by rw [← hg.2, ← hg'.2, hx])

/-- The session a restart rebuilds under a sid. -/
theorem restart_sessions {t : Tables} (h : t.Keyed) (policy : SessionPolicy) {sid : Sid}
    {e : SessionEntry} : (restart policy t).sessions sid = some e ↔
      ∃ r ∈ t.session, r.row.sid = sid ∧ r.row.status = .alive ∧ t.rowsOf sid ≠ [] ∧
        e = r.row.restoredEntry ((t.bootRowsOf sid).map (·.toGeneration)) := by
  have hne : t.bootRowsOf sid ≠ [] ↔ t.rowsOf sid ≠ [] := not_congr
    ⟨fun hx => List.Perm.eq_nil (hx ▸ (t.bootRowsOf_perm sid).symm),
      fun hx => List.Perm.eq_nil (hx ▸ t.bootRowsOf_perm sid)⟩
  rw [(restart_holds h policy).sessions]
  constructor
  · rintro ⟨r, hr, rfl, rfl⟩
    obtain ⟨⟨s, hs, hrow⟩, ha, hg, hn⟩ := (mem_rehydrate h).1 hr
    exact ⟨s, hs, by rw [hrow], by rw [hrow]; exact ha, hne.1 (hg ▸ hn), by rw [hrow, hg]⟩
  · rintro ⟨s, hs, rfl, ha, hn, rfl⟩
    exact ⟨⟨s.row, t.bootRowsOf s.row.sid⟩,
      (mem_rehydrate h).2 ⟨⟨s, hs, rfl⟩, ha, rfl, hne.2 hn⟩, rfl, rfl⟩

end Tables

end SessionBroker
