/-
  The tables follow the map.

  * `Backed`: what is stored of an entry's generations: all of them, and a row
    for every hash the entry still remembers;
  * `Whole`: stored generations that end in the current one;
  * `Synced`: after the whole queue, every entry has its row and is backed;
    `Synced.move` says so for one move, `synced_run` for a run.
-/
import SessionBroker.History

namespace SessionBroker

open Bounded Runs

/-! ## The generations of one session -/

structure SessionEntry.Backed (e : SessionEntry) (stored : List Generation) : Prop where
  gens : e.gens.Sublist stored
  hashes : (stored.map (·.tokenHash)).Perm e.allHashes

/-- Stored generations of which the last is current and the others superseded,
    numbered up to `n`. -/
structure SessionRow.Whole (row : SessionRow) (n : ℕ) (stored : List Generation) : Prop where
  ends : ∃ gs g, (row.restoredEntry stored).Ends gs g
  numbered : (row.restoredEntry stored).Numbered n
  idle : row.idleExp ≤ row.absoluteExp

/-- Deleting generations that were superseded. -/
theorem SessionRow.Whole.delete {row : SessionRow} {n : ℕ} {stored : List Generation}
    (h : row.Whole n stored) {hashes : List TokenHash}
    (hcur : ∀ g ∈ stored, g.supersededAt = none → g.tokenHash ∉ hashes) :
    row.Whole n (stored.filter fun g => g.tokenHash ∉ hashes) := by
  obtain ⟨gs, g, hg⟩ := h.ends
  have hst : stored = gs ++ [g] := hg.gens
  have hkeep : g.tokenHash ∉ hashes :=
    hcur g (hst ▸ List.mem_append_right _ (List.mem_singleton_self g)) hg.current
  have hfil : (row.restoredEntry (stored.filter fun g => g.tokenHash ∉ hashes)).gens =
      gs.filter (fun g => g.tokenHash ∉ hashes) ++ [g] := by
    show stored.filter _ = _
    rw [hst, List.filter_append, List.filter_singleton, decide_eq_true hkeep]
    rfl
  refine ⟨⟨_, g, hfil, hg.genNo, hg.current, fun h hh => ?_, fun _ h => by cases h⟩, ?_, h.idle⟩
  · exact hg.superseded h (List.mem_of_mem_filter hh)
  · exact h.numbered.sublist List.filter_sublist rfl

namespace SessionEntry

section
variable {e : SessionEntry} {row : SessionRow} {stored : List Generation} {n : ℕ}
  {policy : SessionPolicy} {token : SessionToken} {now : Timestamp}

/-- Entry and table agree on the current generation. -/
theorem Backed.last (hb : e.Backed stored) {es gs : List Generation} {g g' : Generation}
    (he : e.Ends es g') (hr : (row.restoredEntry stored).Ends gs g) : g' = g := by
  have hmem : g' ∈ gs ++ [g] :=
    hr.gens ▸ hb.gens.subset (he.gens ▸ List.mem_append_right _ (List.mem_singleton_self g'))
  rcases List.mem_append.1 hmem with h | h
  · exact absurd he.current (hr.superseded g' h)
  · exact List.mem_singleton.1 h

/-- The one stored generation that is not superseded is the entry's current one. -/
theorem Backed.unsuperseded (hb : e.Backed stored) (hs : e.Sound policy) (hw : row.Whole n stored)
    {g : Generation} (hg : g ∈ stored) (hn : g.supersededAt = none) : g = e.current := by
  obtain ⟨es, g', he⟩ := hs.ends
  obtain ⟨gs, l, hl⟩ := hw.ends
  have hst : stored = gs ++ [l] := hl.gens
  rw [he.current_eq, hb.last he hl]
  rw [hst, List.mem_append] at hg
  rcases hg with hg | hg
  · exact absurd hn (hl.superseded g hg)
  · exact List.mem_singleton.1 hg

/-- A reap never purges the current generation. -/
theorem current_not_purged (now : Timestamp) (hs : e.Sound policy) :
    e.current.tokenHash ∉ (e.reapGenerations now policy).2.purged := by
  obtain ⟨es, g, he⟩ := hs.ends
  have hn := (reap_hashes now hs.memory).nodup_iff.2 hs.nodup
  have hmem : g ∈ (e.reapGenerations now policy).1.gens := by
    rw [reap_concat hs.memory he.gens he.genNo]
    exact List.mem_append_right _ (List.mem_singleton_self g)
  rw [he.current_eq]
  exact fun hx => (List.nodup_append.1 hn).2.2 _
    (List.mem_append_left _ (List.mem_map_of_mem hmem)) _ hx rfl

/-- A reap purges rows of what the entry forgets, and no other. -/
theorem Backed.reap (now : Timestamp) (hs : e.Sound policy) (hb : e.Backed stored) :
    ((e.reapGenerations now policy).1).Backed
      (stored.filter fun g => g.tokenHash ∉ (e.reapGenerations now policy).2.purged) := by
  have hp := reap_hashes now hs.memory
  have hn := hp.nodup_iff.2 hs.nodup
  have hdisj : ∀ h ∈ (e.reapGenerations now policy).1.allHashes,
      h ∉ (e.reapGenerations now policy).2.purged :=
    fun h h₁ h₂ => (List.nodup_append.1 hn).2.2 h h₁ h h₂ rfl
  set e' := (e.reapGenerations now policy).1
  set purged := (e.reapGenerations now policy).2.purged
  constructor
  · have hself : e'.gens.filter (fun g => g.tokenHash ∉ purged) = e'.gens := by
      rw [List.filter_eq_self]
      intro g hg
      exact decide_eq_true (hdisj _ (List.mem_append_left _ (List.mem_map_of_mem hg)))
    rw [← hself]
    exact ((reap_sublist hs.memory).trans hb.gens).filter _
  · have hmap : (stored.filter fun g => g.tokenHash ∉ purged).map (·.tokenHash) =
        (stored.map (·.tokenHash)).filter fun h => h ∉ purged := by
      rw [List.filter_map]
      rfl
    have hkeep : (e'.allHashes ++ purged).filter (fun h => h ∉ purged) = e'.allHashes := by
      rw [List.filter_append, List.filter_eq_self.2 fun h hh => decide_eq_true (hdisj h hh),
        List.filter_eq_nil_iff.2 fun h hh => by simpa using hh, List.append_nil]
    rw [hmap]
    exact ((hb.hashes.trans hp.symm).filter _).trans (List.Perm.of_eq hkeep)

theorem Backed.whole_reap (now : Timestamp) (hs : e.Sound policy) (hb : e.Backed stored)
    (hw : row.Whole n stored) : row.Whole n
      (stored.filter fun g => g.tokenHash ∉ (e.reapGenerations now policy).2.purged) :=
  hw.delete fun g hg hn => by
    rw [hb.unsuperseded hs hw hg hn]
    exact current_not_purged now hs

theorem Backed.pushed (token : SessionToken) (now : Timestamp) (hs : e.Sound policy)
    (hb : e.Backed stored) (hw : row.Whole n stored) :
    (e.pushed token now policy).Backed (supersedeLast now stored ++
      [e.minted token now policy]) := by
  obtain ⟨es, g', he⟩ := hs.ends
  obtain ⟨gs, g, hg⟩ := hw.ends
  obtain rfl := hb.last he hg
  have hst : stored = gs ++ [g'] := hg.gens
  constructor
  · have hsub : es.Sublist gs := by
      have := hb.gens
      rwa [he.gens, hst, List.append_sublist_append_right] at this
    simp only [SessionEntry.pushed, he.gens, hst, supersedeLast_append]
    exact (hsub.append_right _).append_right _
  · rw [List.map_append, map_hash_supersedeLast]
    refine List.Perm.trans ?_ pushed_allHashes_perm.symm
    exact (List.perm_append_singleton ..).trans (hb.hashes.cons _)

theorem Backed.whole_pushed (token : SessionToken) (now : Timestamp) (policy : SessionPolicy)
    (hw : row.Whole n stored) (hc : row.currentGen = e.currentGen) {idleExp : Timestamp}
    (hi : idleExp ≤ row.absoluteExp) :
    SessionRow.Whole { row with currentGen := (e.currentGen + 1) % 2 ^ 32, idleExp } (n + 1)
      (supersedeLast now stored ++ [e.minted token now policy]) := by
  obtain ⟨gs, g, hg⟩ := hw.ends
  have hst : stored = gs ++ [g] := hg.gens
  refine ⟨⟨gs ++ [{ g with supersededAt := some now }], e.minted token now policy,
    ?_, rfl, rfl, fun h hh => ?_, fun _ h => by cases h⟩, ?_, hi⟩
  · show supersedeLast now stored ++ _ = _
    rw [hst, supersedeLast_append]
  · rcases List.mem_append.1 hh with hh | hh
    · exact hg.superseded h hh
    · rw [List.mem_singleton.1 hh]
      exact Option.some_ne_none _
  · have hn := hw.numbered.pushed token now policy
    have hm : (row.restoredEntry stored).minted token now policy = e.minted token now policy := by
      simp only [minted, SessionRow.restoredEntry, hc]
    refine hn.sublist ?_ ?_
    · simp only [SessionEntry.pushed, hm]
      exact List.Sublist.refl _
    · simp only [SessionEntry.pushed, SessionRow.restoredEntry, hc]

/-- What a mint's commands make of the stored generations. -/
theorem mint_generations (hs : e.Sound policy) (hb : e.Backed stored) (hw : row.Whole n stored)
    (hf : token.hash ∉ e.allHashes) :
    (e.mint token now policy).2.generations stored =
      (supersedeLast now stored ++ [e.minted token now policy]).filter
        fun g => g.tokenHash ∉ (e.mint token now policy).2.purged := by
  obtain ⟨es, g', he⟩ := hs.ends
  obtain ⟨gs, g, hg⟩ := hw.ends
  obtain rfl := hb.last he hg
  have hst : stored = gs ++ [g'] := hg.gens
  have hnd : ((gs ++ [g']).map (·.tokenHash)).Nodup := hst ▸ hb.hashes.nodup_iff.2 hs.nodup
  have hnew : token.hash ≠ g'.tokenHash := fun hx => hf (hx ▸ List.mem_append_left _
    (List.mem_map_of_mem (he.gens ▸ List.mem_append_right _ (List.mem_singleton_self g'))))
  have hsup : (e.mint token now policy).2.superseded = some (g'.tokenHash, now) := by
    simp [mint_eq, he.gens]
  rw [IndexEffects.generations, hsup]
  congr 1
  rw [hst, supersedeLast_append, List.map_append, map_superseded_last hnd]
  simp [mint_eq, minted, Generation.superseded, hnew]

end

/-- **A refresh keeps table and entry together.** -/
theorem Backed.refresh {e e' : SessionEntry} {row : SessionRow} {stored : List Generation} {n : ℕ}
    {policy : SessionPolicy} {token : SessionToken} {now : Timestamp} {hash : TokenHash}
    {cookies : IssuedCookies} {effects : IndexEffects} (hs : e.Sound policy)
    (hb : e.Backed stored) (hw : row.Whole n stored) (hc : row.currentGen = e.currentGen)
    (ha : row.absoluteExp = e.absoluteExp) (hf : token.hash ∉ e.allHashes)
    (hr : e.refresh hash token now policy = .ok (e', cookies, effects)) :
    e'.Backed (effects.generations stored) ∧
      SessionRow.Whole { row with currentGen := e'.currentGen, idleExp := e'.idleExp }
        (n + effects.added.toList.length) (effects.generations stored) := by
  rcases (refresh_cases hr).2 with ⟨_, _, _, rfl, rfl, _⟩ | ⟨_, rfl, rfl, _⟩
  · have hid : IndexEffects.generations {} stored = stored := by
      simp only [IndexEffects.generations, Option.toList_none, List.append_nil, List.not_mem_nil,
        not_false_iff, decide_true, List.filter_true]
      exact List.map_id _
    rw [hid]
    obtain ⟨gs, g, hg⟩ := hw.ends
    refine ⟨⟨hb.gens, hb.hashes⟩,
      ⟨gs, g, hg.gens, hg.genNo.trans hc, hg.current, hg.superseded, fun _ h => by cases h⟩, ?_, ?_⟩
    · exact hw.numbered.sublist (List.Sublist.refl _) hc.symm
    · exact (min_le_right _ _).trans ha.ge
  · rw [mint_generations hs hb hw hf]
    have hp : (e.pushed token now policy).Sound policy := hs.pushed now hf
    have hbp := hb.pushed token now hs hw
    have habs : (e.mint token now policy).1.absoluteExp = e.absoluteExp := reap_absoluteExp ..
    have hidle : ((e.mint token now policy).1.slide now policy).idleExp ≤ row.absoluteExp :=
      (min_le_right _ _).trans (habs.trans ha.symm).le
    have hwp := Backed.whole_pushed token now policy hw hc hidle
    have hcur : (e.mint token now policy).1.currentGen = (e.currentGen + 1) % 2 ^ 32 :=
      reap_currentGen ..
    refine ⟨⟨(hbp.reap now hp).gens, (hbp.reap now hp).hashes⟩, ?_⟩
    have hwr := hbp.whole_reap now hp hwp
    rw [← hcur] at hwr
    exact hwr

end SessionEntry

/-! ## The whole table -/

/-- The session row says what the entry says. -/
structure SessionRow.Mirrors (row : SessionRow) (e : SessionEntry) : Prop where
  sid : row.sid = e.sid
  custody : row.custodyId = e.custody
  sub : row.sub = e.sub
  currentGen : row.currentGen = e.currentGen
  idleExp : row.idleExp = e.idleExp
  absoluteExp : row.absoluteExp = e.absoluteExp
  status : row.status = e.status

/-- Map and tables agree. -/
structure Synced (m : SessionMap) (t : Tables) : Prop where
  keyed : t.Keyed
  issued : ∀ g ∈ t.generation, g.tokenHash ∈ m.issued
  owned : ∀ g ∈ t.generation, t.HasRow g.sid
  created : ∀ r ∈ t.session, r.row.sid ∈ m.created
  whole : ∀ r ∈ t.session, r.row.Whole (m.generations r.row.sid) (t.gensOf r.row.sid)
  entry : ∀ sid e, m.sessions sid = some e → ∃ r ∈ t.session, r.row.Mirrors e ∧
    e.Backed (t.gensOf sid)

theorem Synced.hasRow {m : SessionMap} {t : Tables} (h : Synced m t) (hw : m.Wf) {sid : Sid}
    {e : SessionEntry} (he : m.sessions sid = some e) : t.HasRow sid := by
  obtain ⟨r, hr, hm, -⟩ := h.entry sid e he
  exact ⟨r, hr, hm.sid.trans (hw.own sid e he)⟩

/-- Only one session, in map and table, is touched. -/
theorem Synced.update {m m' : SessionMap} {t t' : Tables} {sid : Sid} {e e' : SessionEntry}
    {f : SessionRecord → SessionRecord} (h : Synced m t) (hw : m.Wf)
    (he : m.sessions sid = some e) (hm : m'.sessions = Function.update m.sessions sid (some e'))
    (hc : m'.created = m.created)
    (hn : ∀ s, s ≠ sid → m'.generations s = m.generations s)
    (hs : t'.session = t.session.map fun r => if r.row.sid = sid then f r else r)
    (hf : ∀ r, (f r).row.sid = r.row.sid)
    (hg : ∀ s, s ≠ sid → t'.gensOf s = t.gensOf s) (hk : (t'.generation.map (·.tokenHash)).Nodup)
    (hi : ∀ g ∈ t'.generation, g.tokenHash ∈ m'.issued ∧ t.HasRow g.sid)
    (hmir : ∀ r ∈ t.session, r.row.Mirrors e → (f r).row.Mirrors e')
    (hb : e'.Backed (t'.gensOf sid))
    (hwh : ∀ r ∈ t.session, r.row.sid = sid →
      (f r).row.Whole (m'.generations sid) (t'.gensOf sid)) :
    Synced m' t' := by
  have hsid : ∀ r : SessionRecord, (if r.row.sid = sid then f r else r).row.sid = r.row.sid := by
    intro r
    split_ifs
    · exact hf r
    · rfl
  have hrow : ∀ s, t.HasRow s → t'.HasRow s := by
    rintro s ⟨r, hr, hx⟩
    exact ⟨_, hs ▸ List.mem_map_of_mem hr, (hsid r).trans hx⟩
  constructor
  · refine ⟨?_, hk⟩
    have hmap : t'.session.map (·.row.sid) = t.session.map (·.row.sid) := by
      rw [hs, List.map_map]
      exact List.map_congr_left fun r _ => hsid r
    exact hmap ▸ h.keyed.session
  · exact fun g hg => (hi g hg).1
  · exact fun g hg => hrow _ (hi g hg).2
  · intro r' hr'
    rw [hs] at hr'
    obtain ⟨r, hr, rfl⟩ := List.mem_map.1 hr'
    rw [hsid, hc]
    exact h.created r hr
  · intro r' hr'
    rw [hs] at hr'
    obtain ⟨r, hr, rfl⟩ := List.mem_map.1 hr'
    rw [hsid]
    by_cases hx : r.row.sid = sid
    · rw [if_pos hx, hx]
      exact hwh r hr hx
    · rw [if_neg hx, hn _ hx, hg _ hx]
      exact h.whole r hr
  · intro s e₁ he₁
    rw [hm, Function.update_apply] at he₁
    split_ifs at he₁ with hx
    · cases he₁
      subst hx
      obtain ⟨r, hr, hmr, -⟩ := h.entry s e he
      refine ⟨f r, ?_, hmir r hr hmr, hb⟩
      rw [hs]
      have hrs : r.row.sid = s := hmr.sid.trans (hw.own s e he)
      exact List.mem_map.2 ⟨r, hr, if_pos hrs⟩
    · obtain ⟨r, hr, hmr, hbr⟩ := h.entry s e₁ he₁
      refine ⟨r, ?_, hmr, by rw [hg s hx]; exact hbr⟩
      rw [hs]
      have hrs : r.row.sid ≠ sid := fun hy => hx ((hmr.sid.trans (hw.own s e₁ he₁)).symm.trans hy)
      exact List.mem_map.2 ⟨r, hr, if_neg hrs⟩

/-- The custody a login names is on file. -/
def Op.CustodyOnFile (custody : List CustodyRow) : Op → Prop
  | .create _ custodyId .. => ∃ c ∈ custody, c.custodyId = custodyId
  | _ => True

/-- A hash stored for one session is stored for no other. -/
theorem Tables.Keyed.disjoint {t : Tables} (h : t.Keyed) {sid sid' : Sid} (hne : sid' ≠ sid)
    {hash : TokenHash} (hh : hash ∈ (t.gensOf sid).map (·.tokenHash)) :
    hash ∉ (t.gensOf sid').map (·.tokenHash) := by
  intro hx
  rw [map_hash_gensOf] at hx
  obtain ⟨g, hg, rfl⟩ := List.mem_map.1 hx
  obtain ⟨hg, hs⟩ := List.mem_filter.1 hg
  exact hne ((of_decide_eq_true hs).symm.trans (h.sid_eq hg hh))

/-- The commands of a refresh or a reap touch no other session's generations. -/
theorem Synced.stored_of_ne {m : SessionMap} {t : Tables} {sid sid' : Sid} {e : SessionEntry}
    {effects : IndexEffects} (h : Synced m t) (hb : e.Backed (t.gensOf sid)) (hne : sid' ≠ sid)
    (hsup : ∀ p ∈ effects.superseded, p.1 ∈ e.allHashes)
    (hpur : ∀ hash ∈ effects.purged, hash ∈ e.allHashes ∨
      hash ∉ t.generation.map (·.tokenHash)) :
    (t.stored effects sid).gensOf sid' = t.gensOf sid' := by
  have hmine : ∀ hash ∈ e.allHashes, hash ∉ (t.gensOf sid').map (·.tokenHash) := fun hash hh =>
    h.keyed.disjoint hne (hb.hashes.mem_iff.2 hh)
  refine Tables.gensOf_stored_of_ne hne (fun p hp => hmine _ (hsup p hp)) fun hash hh => ?_
  rcases hpur hash hh with hx | hx
  · exact hmine hash hx
  · rw [Tables.map_hash_gensOf]
    exact fun hy => hx ((List.filter_sublist.map _).subset hy)

/-- An unseen session has neither row nor generations. -/
theorem Synced.unseen {m : SessionMap} {t : Tables} (h : Synced m t) {sid : Sid}
    (hs : ¬ m.KnowsSid sid) : (∀ r ∈ t.session, r.row.sid ≠ sid) ∧ t.gensOf sid = [] := by
  have hsid : ∀ r ∈ t.session, r.row.sid ≠ sid :=
    fun r hr hx => hs (Or.inr (hx ▸ h.created r hr))
  refine ⟨hsid, ?_⟩
  rw [Tables.gensOf, List.map_eq_nil_iff, Tables.rowsOf, List.filter_eq_nil_iff]
  intro g hg hx
  obtain ⟨r, hr, hr'⟩ := h.owned g hg
  exact hsid r hr (hr'.trans (of_decide_eq_true hx))

theorem Synced.create {m : SessionMap} {t : Tables} (h : Synced m t) (hcnt : m.Counted) {sid : Sid}
    {custody : CustodyId} {sub : String} {token : SessionToken} {now : Timestamp}
    (hh : ¬ m.Knows token.hash) (hs : ¬ m.KnowsSid sid)
    (hc : ∃ c ∈ t.custody, c.custodyId = custody) :
    ∃ t', t.applyAll (SessionMap.newCommands
        (SessionMap.newEntry m.policy sid custody sub token now) now) = some t' ∧
      t'.custody = t.custody ∧ Synced (m.create sid custody sub token now).1 t' := by
  set e := SessionMap.newEntry m.policy sid custody sub token now with he
  obtain ⟨hsid, hgsid⟩ := h.unseen hs
  have hhash : ∀ g ∈ t.generation, g.tokenHash ≠ token.hash :=
    fun g hg hx => hh (Or.inr (hx ▸ h.issued g hg))
  have hcount : m.generations sid = 0 :=
    not_not.1 fun hn => hs (Or.inr (hcnt.generations sid hn))
  obtain ⟨providerId, ha⟩ := Tables.applyAll_newCommands e now rfl rfl hsid hhash hc
  have hgens := Tables.gensOf_loggedIn t e now providerId
    (by simp [he, SessionMap.newEntry])
  have hiss : ∀ hash ∈ m.issued, hash ∈ (m.create sid custody sub token now).1.issued := by
    intro hash hx
    simp only [SessionMap.issued, SessionMap.create_queue, List.filterMap_append, List.mem_append]
    exact Or.inl hx
  have hrow : ∀ s, t.HasRow s → (t.loggedIn e now providerId).HasRow s := by
    rintro s ⟨r, hr, hx⟩
    exact ⟨r, List.mem_append_left _ hr, hx⟩
  refine ⟨_, ha, rfl, h.keyed.applyAll ha, fun g hg => ?_, fun g hg => ?_, fun r hr => ?_,
    fun r hr => ?_, ?_⟩
  · rcases List.mem_append.1 hg with hg | hg
    · exact hiss _ (h.issued g hg)
    · rw [List.mem_singleton.1 hg]
      simp [SessionMap.issued, SessionMap.newEntry, Tables.newRow]
  · rcases List.mem_append.1 hg with hg | hg
    · exact hrow _ (h.owned g hg)
    · rw [List.mem_singleton.1 hg]
      exact ⟨_, List.mem_append_right _ (List.mem_singleton_self _), rfl⟩
  · rw [SessionMap.created_create, List.mem_append]
    rcases List.mem_append.1 hr with hr | hr
    · exact Or.inl (h.created r hr)
    · rw [List.mem_singleton.1 hr]
      exact Or.inr (List.mem_singleton_self sid)
  · rw [SessionMap.generations_create, hgens]
    rcases List.mem_append.1 hr with hr | hr
    · have hx : sid ≠ r.row.sid := Ne.symm (hsid r hr)
      rw [if_neg hx, Nat.add_zero, if_neg (show e.sid ≠ r.row.sid from hx), List.append_nil]
      exact h.whole r hr
    · rw [List.mem_singleton.1 hr]
      show SessionRow.Whole _ (m.generations sid + if sid = sid then 1 else 0)
        (t.gensOf sid ++ if sid = sid then e.gens else [])
      rw [if_pos rfl, if_pos rfl, hcount, hgsid]
      exact ⟨⟨[], _, rfl, rfl, rfl, (fun _ h => by cases h), fun _ h => by cases h⟩,
        ⟨rfl, [1], List.pairwise_singleton _ _, by simp, rfl⟩, min_le_right _ _⟩
  · rw [SessionMap.create_sessions]
    refine forall_update (fun s e₁ he₁ => ?_) ?_
    · have hx : sid ≠ s := fun hx => hs (Or.inl (by rw [hx, he₁]; exact Option.some_ne_none e₁))
      obtain ⟨r, hr, hm, hb⟩ := h.entry s e₁ he₁
      refine ⟨r, List.mem_append_left _ hr, hm, ?_⟩
      rw [hgens, if_neg (show e.sid ≠ s from hx), List.append_nil]
      exact hb
    · rintro _ ⟨⟩
      refine ⟨_, List.mem_append_right _ (List.mem_singleton_self _),
        ⟨rfl, rfl, rfl, rfl, rfl, rfl, rfl⟩, ?_⟩
      rw [hgens, hgsid, if_pos (show e.sid = sid from rfl)]
      exact ⟨List.Sublist.refl _, by simp [e, SessionEntry.allHashes, SessionMap.newEntry]⟩

theorem Synced.refresh {m : SessionMap} {t : Tables} {hash : TokenHash} {token : SessionToken}
    {now : Timestamp} {sid : Sid} {e e' : SessionEntry} {cookies : IssuedCookies}
    {effects : IndexEffects} (h : Synced m t) (hw : m.Wf) (hh : ¬ m.Knows token.hash)
    (he : m.sessions sid = some e)
    (hr : e.refresh hash token now m.policy = .ok (e', cookies, effects)) :
    t.applyAll (effects.commands sid ++ [.updateSessionProgress sid e'.currentGen e'.idleExp]) =
        some ((t.stored effects sid).updateSessionProgress sid e'.currentGen e'.idleExp) ∧
      Synced (m.commit sid e' effects)
        ((t.stored effects sid).updateSessionProgress sid e'.currentGen e'.idleExp) := by
  have hs := hw.sound sid e he
  have hrow := h.hasRow hw he
  have hadd := SessionEntry.refresh_added hr
  have hnew : token.hash ∉ e.allHashes := fun hx => by
    rw [← hw.index.mem he] at hx
    exact hh (Or.inl (by rw [hx]; exact Option.some_ne_none sid))
  have hfresh : ∀ g ∈ effects.added, g.tokenHash ∉ t.generation.map (·.tokenHash) := by
    intro g hg hx
    obtain ⟨g', hg', hgh⟩ := List.mem_map.1 hx
    exact hh (Or.inr (hadd g hg ▸ hgh ▸ h.issued g' hg'))
  have hpur : ∀ hash ∈ effects.purged, hash ∈ e.allHashes ∨
      hash ∉ t.generation.map (·.tokenHash) := by
    intro hash' hp
    have := (SessionEntry.refresh_hashes hs.memory hr).subset (List.mem_append_right _ hp)
    rcases List.mem_append.1 this with hx | hx
    · obtain ⟨g, hg, rfl⟩ := List.mem_map.1 hx
      exact Or.inr (hfresh g (Option.mem_toList.1 hg))
    · exact Or.inl hx
  have hnone : ∀ g ∈ effects.added, g.supersededAt = none := fun g hg => by
    rw [SessionEntry.refresh_added_eq hr g hg]
    rfl
  obtain ⟨r, hr', hmr, hb⟩ := h.entry sid e he
  have hrs : r.row.sid = sid := hmr.sid.trans (hw.own sid e he)
  obtain ⟨hb', hwh⟩ := hb.refresh hs (hrs ▸ h.whole r hr') hmr.currentGen
    hmr.absoluteExp hnew hr
  have hgens : ((t.stored effects sid).updateSessionProgress sid e'.currentGen
      e'.idleExp).gensOf sid = effects.generations (t.gensOf sid) := Tables.gensOf_stored hnone
  constructor
  · rw [Tables.applyAll_append, Tables.applyAll_commands hrow hfresh]
    rfl
  · refine h.update (f := fun r => { r with row := { r.row with
      currentGen := e'.currentGen, idleExp := e'.idleExp } }) hw he (SessionMap.commit_sessions ..)
      (SessionMap.created_commit ..) (fun s hx => ?_) rfl (fun _ => rfl)
      (fun s hx => h.stored_of_ne hb hx (SessionEntry.refresh_superseded hr) hpur)
      (h.keyed.applyAll (Tables.applyAll_commands hrow hfresh)).generation (fun g hg => ?_) (fun r _ hm => ?_)
      (hgens ▸ hb') (fun r₁ hr₁ hx => ?_)
    · rw [SessionMap.generations_commit, if_neg (Ne.symm hx), Nat.add_zero]
    · have hiss : ∀ hash ∈ m.issued, hash ∈ (m.commit sid e' effects).issued := by
        intro hash hx
        simp only [SessionMap.issued, SessionMap.commit_queue, List.filterMap_append,
          List.mem_append]
        exact Or.inl hx
      rcases Tables.mem_stored hg with ⟨g₀, hg₀, hsid, hhash⟩ | ⟨g₀, hg₀, hsid, hhash⟩
      · exact ⟨hhash ▸ hiss _ (h.issued g₀ hg₀), hsid ▸ h.owned g₀ hg₀⟩
      · refine ⟨?_, hsid ▸ hrow⟩
        rw [hhash]
        simp only [SessionMap.issued, SessionMap.commit_queue, List.filterMap_append,
          List.mem_append, IndexEffects.filterMap_issues, List.mem_map, Option.mem_toList]
        exact Or.inr (Or.inl ⟨g₀, hg₀, rfl⟩)
    · obtain ⟨_, _, _, _, _, rfl⟩ := SessionEntry.refresh_frame hr
      exact ⟨hm.sid, hm.custody, hm.sub, rfl, rfl, hm.absoluteExp, hm.status⟩
    · have hx₁ : r₁ = r := List.inj_on_of_nodup_map h.keyed.session hr₁ hr' (hx.trans hrs.symm)
      subst hx₁
      rw [hgens, SessionMap.generations_commit, if_pos rfl]
      exact hwh

/-- An update that leaves generations and rows of the generation table alone. -/
theorem Synced.reRow {m m' : SessionMap} {t : Tables} {sid : Sid} {e e' : SessionEntry}
    {f : SessionRecord → SessionRecord} (h : Synced m t) (hw : m.Wf)
    (he : m.sessions sid = some e) (hm : m'.sessions = Function.update m.sessions sid (some e'))
    (hc : m'.created = m.created) (hi : m'.issued = m.issued)
    (hn : ∀ s, m'.generations s = m.generations s)
    (hg : e'.gens = e.gens) (hret : e'.retired = e.retired)
    (hf : ∀ r, (f r).row.sid = r.row.sid ∧ (f r).row.currentGen = r.row.currentGen ∧
      (f r).row.idleExp = r.row.idleExp ∧ (f r).row.absoluteExp = r.row.absoluteExp)
    (hmir : ∀ r ∈ t.session, r.row.Mirrors e → (f r).row.Mirrors e') :
    Synced m' { t with session := t.session.map fun r => if r.row.sid = sid then f r else r } := by
  obtain ⟨r, hr, hmr, hb⟩ := h.entry sid e he
  have hb' : e'.Backed (t.gensOf sid) := by
    have hall : e'.allHashes = e.allHashes := by rw [SessionEntry.allHashes, hg, hret]; rfl
    exact ⟨hg ▸ hb.gens, hall ▸ hb.hashes⟩
  refine h.update hw he hm hc (fun s _ => hn s) rfl (fun r => (hf r).1) (fun _ _ => rfl)
    h.keyed.generation (fun g hg => ⟨hi ▸ h.issued g hg, h.owned g hg⟩) hmir hb' fun r₁ hr₁ hx => ?_
  obtain ⟨⟨gs, g, hgs⟩, hnum, hidle⟩ := h.whole r₁ hr₁
  obtain ⟨-, hcur, hid, habs⟩ := hf r₁
  rw [hx] at hgs hnum
  rw [hn]
  refine ⟨⟨gs, g, hgs.gens, ?_, hgs.current, hgs.superseded, fun _ h => by cases h⟩, ?_, ?_⟩
  · exact hgs.genNo.trans hcur.symm
  · exact hnum.sublist (List.Sublist.refl _) hcur
  · rwa [hid, habs]

/-- **One move.** -/
theorem Synced.move {op : Op} {m m' : SessionMap} {t : Tables} (h : Synced m t) (hw : m.Wf)
    (hcnt : m.Counted) (hm : Move op m m') (hc : op.CustodyOnFile t.custody) :
    ∃ cmds t', m'.queue = m.queue ++ cmds ∧ t.applyAll cmds = some t' ∧
      t'.custody = t.custody ∧ Synced m' t' := by
  cases hm with
  | @create _ sid custody sub token now hh hs =>
    obtain ⟨t', ha, hcu, hsy⟩ := h.create hcnt hh hs hc
    exact ⟨_, t', SessionMap.create_queue .., ha, hcu, hsy⟩
  | @refresh _ hash token now sid e e' cookies effects hh hi he hr =>
    obtain ⟨ha, hsy⟩ := h.refresh hw hh he hr
    exact ⟨_, _, SessionMap.commit_queue .., ha, rfl, hsy⟩
  | @kill _ op sid e now reason hk he ha =>
    refine ⟨_, t.tombstoneSession sid now, SessionMap.kill_queue .., rfl, rfl, ?_⟩
    refine h.reRow hw he rfl (SessionMap.created_kill ..) ?_ (fun _ => SessionMap.generations_kill ..)
      rfl rfl (fun _ => ⟨rfl, rfl, rfl, rfl⟩) fun r _ hm => ?_
    · simp [SessionMap.issued, SessionCommand.issues]
    · exact ⟨hm.sid, hm.custody, hm.sub, hm.currentGen, hm.idleExp, hm.absoluteExp, rfl⟩
  | @touch _ order custody status sid e he hcu =>
    refine ⟨[], t, (List.append_nil _).symm, rfl, rfl, ?_⟩
    have hsame : Synced (m.setEntry sid { e with custodyStatus := status })
        { t with session := t.session.map fun r => if r.row.sid = sid then id r else r } :=
      h.reRow hw he rfl rfl rfl (fun _ => rfl) rfl rfl (fun _ => ⟨rfl, rfl, rfl, rfl⟩) fun r _ hm =>
        ⟨hm.sid, hm.custody, hm.sub, hm.currentGen, hm.idleExp, hm.absoluteExp, hm.status⟩
    simpa using hsame
  | announce => exact ⟨[], t, (List.append_nil _).symm, rfl, rfl, ⟨h.keyed, h.issued, h.owned,
      h.created, h.whole, h.entry⟩⟩
  | @reap _ order now sid e he =>
    have hs := hw.sound sid e he
    have hrow := h.hasRow hw he
    obtain ⟨r, hr', hmr, hb⟩ := h.entry sid e he
    have hrs : r.row.sid = sid := hmr.sid.trans (hw.own sid e he)
    have hpur : ∀ hash ∈ (e.reapGenerations now m.policy).2.purged, hash ∈ e.allHashes ∨
        hash ∉ t.generation.map (·.tokenHash) := fun hash hp =>
      Or.inl ((SessionEntry.reap_hashes now hs.memory).subset (List.mem_append_right _ hp))
    have hgens : (t.stored (e.reapGenerations now m.policy).2 sid).gensOf sid =
        (t.gensOf sid).filter fun g =>
          g.tokenHash ∉ (e.reapGenerations now m.policy).2.purged := by
      rw [Tables.gensOf_stored (by simp)]
      simp [IndexEffects.generations]
    refine ⟨_, t.stored (e.reapGenerations now m.policy).2 sid, SessionMap.reap_queue ..,
      Tables.applyAll_commands hrow (by simp), rfl, ?_⟩
    refine h.update (f := id) hw he (SessionMap.reap_sessions ..) (SessionMap.created_reap ..)
      (fun s _ => SessionMap.generations_reap ..) (by simp [Tables.stored]) (fun _ => rfl)
      (fun s hx => h.stored_of_ne hb hx (by simp) hpur)
      (h.keyed.applyAll (Tables.applyAll_commands hrow (by simp))).generation (fun g hg => ?_) (fun r _ hm => ?_)
      (hgens ▸ hb.reap now hs) (fun r₁ hr₁ hx => ?_)
    · rcases Tables.mem_stored hg with ⟨g₀, hg₀, hsid, hhash⟩ | ⟨g₀, hg₀, -⟩
      · refine ⟨?_, hsid ▸ h.owned g₀ hg₀⟩
        simpa [SessionMap.issued, hhash] using h.issued g₀ hg₀
      · simp at hg₀
    · exact ⟨by simpa using hm.sid, by simpa using hm.custody, by simpa using hm.sub,
        by simpa using hm.currentGen, by simpa using hm.idleExp, by simpa using hm.absoluteExp,
        by simpa using hm.status⟩
    · rw [hgens, SessionMap.generations_reap]
      exact hb.whole_reap now hs (hx ▸ h.whole r₁ hr₁)
  | @remove _ order now sid e he hcol =>
    refine ⟨[], t, by simp, rfl, rfl, ⟨h.keyed, ?_, h.owned, ?_, ?_, ?_⟩⟩
    · simpa [SessionMap.issued] using h.issued
    · simpa using h.created
    · simpa using h.whole
    · rw [SessionMap.forget_sessions]
      exact forall_update h.entry (fun _ h => by cases h)

/-- A new database: the custody rows are written before any session. -/
def Tables.fresh (custody : List CustodyRow) : Tables := ⟨custody, [], []⟩

/-- The queue goes through, and brings the tables in step with the map. -/
def InSync (custody : List CustodyRow) (m : SessionMap) : Prop :=
  ∃ t, (Tables.fresh custody).applyAll m.queue = some t ∧ t.custody = custody ∧ Synced m t

theorem inSync_withDurability (custody : List CustodyRow) (policy : SessionPolicy) :
    InSync custody (.withDurability policy) :=
  ⟨_, rfl, rfl, {
    keyed := ⟨List.nodup_nil, List.nodup_nil⟩
    issued := fun _ h => by cases h
    owned := fun _ h => by cases h
    created := fun _ h => by cases h
    whole := fun _ h => by cases h
    entry := fun _ _ h => by cases h }⟩

theorem InSync.move {custody : List CustodyRow} {op : Op} {m m' : SessionMap}
    (h : InSync custody m) (hw : m.Wf) (hcnt : m.Counted) (hc : op.CustodyOnFile custody)
    (hm : Move op m m') : InSync custody m' := by
  obtain ⟨t, ha, rfl, hs⟩ := h
  obtain ⟨cmds, t', hq, ha', hcu, hs'⟩ := hs.move hw hcnt hm hc
  refine ⟨t', ?_, hcu, hs'⟩
  rw [hq, Tables.applyAll_append, ha]
  exact ha'

/-- **After any run** the whole queue goes through and the tables follow the map. -/
theorem synced_run (policy : SessionPolicy) {custody : List CustodyRow} {ops : List Op}
    (hf : Fresh ops) (hc : ∀ op ∈ ops, op.CustodyOnFile custody) :
    InSync custody (.runs policy ops) := by
  have hrun : (fun m => m.Kept policy ∧ InSync custody m)
      (run SessionMap.step (.withDurability policy) ops) := by
    refine run_moves_invariant (fun ops => Fresh ops ∧ ∀ op ∈ ops, op.CustodyOnFile custody)
      (fun m => m.Kept policy ∧ InSync custody m) (fun as a h => ?_)
      (fun as a h => SessionMap.step_moves (h.1.from policy).freshIn)
      ⟨SessionMap.kept_withDurability policy, inSync_withDurability custody policy⟩
      (fun as a m m' h hi hm => ?_) ops ⟨hf, hc⟩
    · exact ⟨h.1.of_append, fun op hop => h.2 op (List.mem_append_left _ hop)⟩
    · have hon : a.CustodyOnFile custody :=
        h.2 a (List.mem_append_right _ (List.mem_singleton_self a))
      exact ⟨hi.1.move hm, hi.2.move hi.1.wf hi.1.counted hon hm⟩
  exact hrun.2

/-- The queue leaves a session the row that says what its entry says. -/
theorem InSync.row {custody : List CustodyRow} {m : SessionMap} (h : InSync custody m) (hw : m.Wf)
    {sid : Sid} {e : SessionEntry} (he : m.sessions sid = some e) :
    ∃ row, m.row sid = some row ∧ row.Mirrors e := by
  obtain ⟨t, ha, -, hs⟩ := h
  obtain ⟨r, hr, hm, -⟩ := hs.entry sid e he
  have hrow := hs.keyed.rowOf_eq hr
  rw [hm.sid, hw.own sid e he, Tables.rowOf_applyAll sid ha] at hrow
  exact ⟨r.row, hrow, hm⟩

end SessionBroker
