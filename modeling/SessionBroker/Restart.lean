/-
  A restart after the whole queue was applied.

  * `Synced.restart`: the rebuilt entry of a session, next to the one it had;
  * `restart_keeps`: whatever could refresh still can, with the same verdict.
-/
import SessionBroker.Sync

namespace SessionBroker

open Bounded Relation Runs

/-! ## The rebuilt entry -/

theorem Tables.Keyed.bootGens_nodup {t : Tables} (h : t.Keyed) (sid : Sid) :
    (((t.bootRowsOf sid).map (·.toGeneration)).map (·.tokenHash)).Nodup := by
  have hp := ((t.bootRowsOf_perm sid).map (·.toGeneration)).map (·.tokenHash)
  exact hp.nodup_iff.2 (h.gensOf_nodup sid)

theorem Tables.mem_bootGens {t : Tables} {sid : Sid} {g : Generation} :
    g ∈ (t.bootRowsOf sid).map (·.toGeneration) ↔ g ∈ t.gensOf sid :=
  ((t.bootRowsOf_perm sid).map (·.toGeneration)).mem_iff

/-- The generations of every rebuilt entry have distinct hashes. -/
theorem Tables.Keyed.restart_nodup {t : Tables} (h : t.Keyed) (policy : SessionPolicy) (sid : Sid)
    (e : SessionEntry) (he : (restart policy t).sessions sid = some e) :
    (e.gens.map (·.tokenHash)).Nodup := by
  obtain ⟨r, -, -, -, -, rfl⟩ := (Tables.restart_sessions h policy).1 he
  exact h.bootGens_nodup sid

/-- **The rebuilt session.**  While the session lives, its rebuilt entry agrees
    with the one in the map, and holds the generations of that one. -/
theorem Synced.restart {m : SessionMap} {t : Tables} (h : Synced m t) (hw : m.Wf) {sid : Sid}
    {e : SessionEntry} (he : m.sessions sid = some e) (ha : e.status = .alive) :
    ∃ e', (restart m.policy t).sessions sid = some e' ∧ e'.sid = e.sid ∧
      e'.currentGen = e.currentGen ∧ e'.idleExp = e.idleExp ∧ e'.absoluteExp = e.absoluteExp ∧
      e'.status = .alive ∧ e'.custodyStatus = .ok ∧ (∀ g, g ∈ e'.gens ↔ g ∈ t.gensOf sid) ∧
      ∀ g ∈ e.gens, g ∈ e'.gens := by
  obtain ⟨r, hr, hm, hb⟩ := h.entry sid e he
  have hrs : r.row.sid = sid := hm.sid.trans (hw.own sid e he)
  obtain ⟨gs, g, hg⟩ := (hw.sound sid e he).ends
  have hne : t.rowsOf sid ≠ [] := by
    intro hx
    have hmem : g ∈ t.gensOf sid := hb.gens.subset (by rw [hg.gens]; simp)
    rw [Tables.gensOf, hx] at hmem
    cases hmem
  have hgens : ∀ g, g ∈ (t.bootRowsOf sid).map (·.toGeneration) ↔ g ∈ t.gensOf sid :=
    fun _ => Tables.mem_bootGens
  refine ⟨_, (Tables.restart_sessions h.keyed m.policy).2
    ⟨r, hr, hrs, hm.status.trans ha, hne, rfl⟩, hm.sid, hm.currentGen, hm.idleExp,
    hm.absoluteExp, rfl, rfl, hgens, fun g hg => ?_⟩
  exact (hgens g).2 (hb.gens.subset hg)

/-! ## Nobody is logged out -/

namespace SessionMap

/-- **A restart logs nobody out.** -/
theorem restart_keeps (policy : SessionPolicy) (custody : List CustodyRow) (ops : List Op)
    (hf : Fresh ops) (hc : ∀ op ∈ ops, op.CustodyOnFile custody) :
    ∃ t, (Tables.fresh custody).applyAll (runs policy ops).queue = some t ∧
      ∀ hash now, ((runs policy ops).resolve hash now).refreshable = true →
        (restart policy t).resolve hash now = (runs policy ops).resolve hash now ∧
        ∀ token, ∃ m cookies, (restart policy t).refresh hash token now = (m, .ok cookies) := by
  obtain ⟨t, ha, -, hs⟩ := synced_run policy hf hc
  have hk := kept_run policy hf
  refine ⟨t, ha, fun hash now hr => ?_⟩
  have hheld := Tables.restart_holds hs.keyed policy
  have hne : (runs policy ops).resolve hash now ≠ .unknown := fun hx => by
    rw [hx] at hr
    cases hr
  obtain ⟨sid, e, he, hh, hres⟩ := hk.wf.index.resolved hne
  rw [hk.policy] at hres
  rw [hres] at hr ⊢
  obtain ⟨hx, g, hg, rfl⟩ := SessionEntry.mem_of_refreshable hr
  obtain ⟨halive, habs, hidle, -⟩ := SessionEntry.sessionExpiry_eq_none.1 hx
  obtain ⟨e', he', hsid, hcur, hid', habs', halive', hok, -, hgens⟩ := hs.restart hk.wf he halive
  rw [hk.policy] at he'
  have hx' : e'.sessionExpiry now policy = none := by
    rw [SessionEntry.sessionExpiry_eq_none, hid', habs', hok]
    exact ⟨halive', habs, hidle, fun h => by cases h.1⟩
  have hsame : e'.classify g.tokenHash now policy = e.classify g.tokenHash now policy := by
    rw [SessionEntry.classify_of_mem (hs.keyed.restart_nodup policy sid e' he') hx' (hgens g hg),
      SessionEntry.classify_of_mem (hk.wf.sound sid e he).gens_nodup hx hg, hsid, hcur]
  have hheld' : g.tokenHash ∈ e'.allHashes :=
    List.mem_append_left _ (List.mem_map_of_mem (hgens g hg))
  constructor
  · rw [hheld.index.resolve he' hheld', hheld.policy, hsame]
  · intro token
    rw [refresh_ok_iff token, hheld.index.resolve he' hheld', hheld.policy, hsame]
    exact hr

/-- At a concrete run: a replaced cookie goes on through a restart. -/
theorem restart_keeps_replaced :
    let ops := [Op.create ⟨"s"⟩ ⟨"c"⟩ "alice" .sample1 ⟨0⟩,
      .refresh SessionToken.sample1.hash .sample2 ⟨100⟩]
    ∃ t, (Tables.fresh [⟨⟨"c"⟩, "p"⟩]).applyAll (runs {} ops).queue = some t ∧
      (restart {} t).resolve SessionToken.sample1.hash ⟨120⟩ = .active ⟨"s"⟩ 1 false := by
  intro ops
  obtain ⟨t, ha, h⟩ := restart_keeps {} [⟨⟨"c"⟩, "p"⟩] ops (by decide)
    (by simp [ops, Op.CustodyOnFile])
  refine ⟨t, ha, (h SessionToken.sample1.hash ⟨120⟩ (by decide)).1.trans (by decide)⟩

end SessionMap

end SessionBroker
