/-
  An entry as a window on its session's history.

  * `Window`: the generations of an entry are the history without its first `k`
    elements, and its memory the last of those; a generation is outside the
    window only if it lapsed or was pushed out by the cap;
  * `Window.reap` and `Window.pushed` say how the window moves;
  * `Tracked`: all of this for every session of a map; `tracked_run` for a run
    at nondecreasing times.
-/
import SessionBroker.History

namespace SessionBroker

open Bounded Runs

namespace SessionEntry

/-! ## How far a reap moves the window -/

/-- How many generations a reap drops. -/
def drops (e : SessionEntry) (now : Timestamp) (policy : SessionPolicy) : ℕ :=
  max (e.gens.countP (e.lapsed now policy)) (e.gens.length - policy.cap)

/-- No earlier generation bears the number of the current one. -/
def OneCurrent (e : SessionEntry) : Prop :=
  ∀ gs g, e.gens = gs ++ [g] → ∀ h ∈ gs, h.genNo ≠ e.currentGen

section
variable {e : SessionEntry} {policy : SessionPolicy} {now : Timestamp}

/-- Along the generations, what has not lapsed is a suffix. -/
theorem lapsed_first (hs : e.Sound policy) (hc : Chronicle policy now e.gens)
    (hone : e.OneCurrent) :
    e.gens.Pairwise fun g h => (!e.lapsed now policy g) = true → (!e.lapsed now policy h) = true := by
  obtain ⟨gs, g, hg⟩ := hs.ends
  have hone := hone gs g hg.gens
  have hlast : e.lapsed now policy g = false := by simp [lapsed, hg.genNo]
  have hvalid := hc.valid
  rw [hg.gens, List.pairwise_append] at hvalid ⊢
  refine ⟨?_, List.pairwise_singleton .., ?_⟩
  · refine List.Pairwise.imp_of_mem ?_ hvalid.1
    intro a b ha hb hab hla
    have hva : now < a.resourceValidUntil policy.graceSecs := by
      by_contra hx
      simp [lapsed, hone a ha, not_lt.1 hx] at hla
    have hvb : ¬ b.resourceValidUntil policy.graceSecs ≤ now := not_le.2 (hva.trans_le hab)
    simp [lapsed, hvb]
  · intro a _ b hb _
    rw [List.mem_singleton.1 hb, hlast]
    rfl

theorem countP_lapsed_lt (hs : e.Sound policy) (now : Timestamp) :
    e.gens.countP (e.lapsed now policy) < e.gens.length := by
  obtain ⟨gs, g, hg⟩ := hs.ends
  have hl : e.lapsed now policy g = false := by simp [lapsed, hg.genNo]
  have hle : gs.countP (e.lapsed now policy) ≤ gs.length := List.countP_le_length
  rw [hg.gens, List.countP_append, List.length_append, List.countP_singleton, hl]
  simp only [Bool.false_eq_true, if_false, List.length_singleton]
  omega

theorem drops_lt (hs : e.Sound policy) (now : Timestamp) :
    e.drops now policy < e.gens.length := by
  have h₁ := countP_lapsed_lt hs now
  have h₂ := policy.cap_pos
  rw [drops]
  omega

/-- A dropped generation has lapsed, or `cap` newer ones pushed it out. -/
theorem dropped_spent (hs : e.Sound policy) (hc : Chronicle policy now e.gens)
    (hone : e.OneCurrent) {i : ℕ} {g : Generation} (hg : e.gens[i]? = some g)
    (hi : i < e.drops now policy) :
    g.resourceValidUntil policy.graceSecs ≤ now ∨ policy.cap ≤ e.gens.length - 1 - i := by
  by_cases hn : i < e.gens.countP (e.lapsed now policy)
  · left
    have htake := filter_not_eq_take (lapsed_first hs hc hone)
    simp only [Bool.not_not] at htake
    have hmem : g ∈ e.gens.take (e.gens.countP (e.lapsed now policy)) := by
      refine List.mem_of_getElem? (i := i) ?_
      rw [List.getElem?_take, if_pos hn, hg]
    rw [← htake, List.mem_filter] at hmem
    have hl : g.genNo ≠ e.currentGen ∧ g.resourceValidUntil policy.graceSecs ≤ now := by
      simpa [lapsed] using hmem.2
    exact hl.2
  · right
    rw [drops] at hi
    omega

/-- **A reap drops a prefix.** -/
theorem reap_drop (hs : e.Sound policy) (hc : Chronicle policy now e.gens)
    (hone : e.OneCurrent) :
    (e.reapGenerations now policy).1.gens = e.gens.drop (e.drops now policy) ∧
      (e.reapGenerations now policy).1.retired = keepLast policy.retiredMemory
        (e.retired ++ (e.gens.take (e.drops now policy)).map (·.key)) := by
  have hp := lapsed_first hs hc hone
  have hdrop := filter_eq_drop hp
  have htake := filter_not_eq_take hp
  simp only [Bool.not_not] at hdrop htake
  set n := e.gens.countP (e.lapsed now policy) with hn
  have hle : n ≤ e.gens.length := List.countP_le_length
  have hd : e.drops now policy = n + (e.gens.length - n - policy.cap) := by
    rw [drops, ← hn]
    omega
  rw [reapGenerations_eq e now policy hs.memory]
  constructor
  · show keepLast policy.cap (e.gens.filter _) = _
    rw [hdrop, keepLast, List.drop_drop, List.length_drop, hd]
  · have hgone : e.dropped now policy = e.gens.take (e.drops now policy) := by
      rw [dropped, kept, hdrop, htake, overflow, List.length_drop, hd, List.take_add]
    rw [hgone]

end

/-! ## The window -/

/-- The entry shows the history from `k` on. -/
structure Window (e : SessionEntry) (policy : SessionPolicy) (now : Timestamp)
    (history : List Generation) (k : ℕ) : Prop where
  gens : e.gens = history.drop k
  lt : k < history.length
  retired : e.retired = keepLast policy.retiredMemory ((history.take k).map (·.key))
  spent : ∀ i g, history[i]? = some g → i < k →
    g.resourceValidUntil policy.graceSecs ≤ now ∨ policy.cap ≤ history.length - 1 - i

section
variable {e : SessionEntry} {policy : SessionPolicy} {now now' : Timestamp}
  {history : List Generation} {k : ℕ}

theorem Window.mono (h : e.Window policy now history k) (ht : now ≤ now') :
    e.Window policy now' history k :=
  ⟨h.gens, h.lt, h.retired, fun i g hg hi => (h.spent i g hg hi).imp_left (·.trans ht)⟩

/-- The window depends on generations and memory only. -/
theorem Window.congr {e' : SessionEntry} (h : e.Window policy now history k)
    (hg : e'.gens = e.gens) (hr : e'.retired = e.retired) : e'.Window policy now history k :=
  ⟨hg.trans h.gens, h.lt, hr.trans h.retired, h.spent⟩

theorem Window.reap (hs : e.Sound policy) (hc : Chronicle policy now history)
    (hone : e.OneCurrent) (h : e.Window policy now history k) :
    (e.reapGenerations now policy).1.Window policy now history (k + e.drops now policy) := by
  have hce : Chronicle policy now e.gens := hc.sublist (h.gens ▸ List.drop_sublist ..)
  obtain ⟨hgens, hret⟩ := reap_drop hs hce hone
  have hlen : e.gens.length = history.length - k := by rw [h.gens, List.length_drop]
  have hlt := drops_lt hs now
  have hk := h.lt
  refine ⟨?_, by omega, ?_, fun i g hg hi => ?_⟩
  · rw [hgens, h.gens, List.drop_drop]
  · rw [hret, h.retired, keepLast_append, h.gens, ← List.map_append, ← List.take_add]
  · by_cases hik : i < k
    · exact h.spent i g hg hik
    · have hg' : e.gens[i - k]? = some g := by
        rw [h.gens, List.getElem?_drop, ← hg]
        congr 1
        omega
      rcases dropped_spent hs hce hone hg' (by omega) with hv | hcap
      · exact Or.inl hv
      · right
        omega

theorem Window.pushed (h : e.Window policy now history k) (hr : e.Recorded history)
    (token : SessionToken) : (e.pushed token now policy).Window policy now
      (supersedeLast now history ++ [e.minted token now policy]) k := by
  obtain ⟨hs, es, g, rfl, he, -⟩ := hr.ends
  have hk : k ≤ hs.length := by
    have := h.lt
    rw [List.length_append, List.length_singleton] at this
    omega
  have hes : es = hs.drop k := by
    have := h.gens
    rw [he, List.drop_append_of_le_length hk] at this
    exact (List.append_inj' this rfl).1
  rw [supersedeLast_append]
  refine ⟨?_, ?_, ?_, fun i x hx hi => ?_⟩
  · simp only [SessionEntry.pushed, he, supersedeLast_append, hes, List.append_assoc]
    rw [List.drop_append_of_le_length hk]
  · simp only [List.length_append, List.length_singleton]
    omega
  · have := h.retired
    rw [List.take_append_of_le_length hk] at this
    rw [List.append_assoc, List.take_append_of_le_length hk, ← this]
    rfl
  · have hx' : (hs ++ [g])[i]? = some x := by
      rw [List.append_assoc, List.getElem?_append_left (by omega)] at hx
      rwa [List.getElem?_append_left (by omega)]
    refine (h.spent i x hx' hi).imp_right fun hcap => ?_
    simp only [List.length_append, List.length_singleton] at hcap ⊢
    omega

end

end SessionEntry

/-! ## Numbers -/

/-- The `i`-th generation ever issued is numbered `i + 1`, modulo `2^32`. -/
def Consecutive (history : List Generation) : Prop :=
  ∀ i g, history[i]? = some g → g.genNo = (i + 1) % 2 ^ 32

theorem Consecutive.push {history : List Generation} (h : Consecutive history) {now : Timestamp}
    {g : Generation} (hg : g.genNo = (history.length + 1) % 2 ^ 32) :
    Consecutive (supersedeLast now history ++ [g]) := by
  intro i x hx
  rcases lt_or_ge i history.length with hi | hi
  · have hno : (history.map (·.genNo))[i]? = some x.genNo := by
      rw [List.getElem?_append_left (by simpa using hi)] at hx
      rw [← map_genNo_supersedeLast now history, List.getElem?_map, hx]
      rfl
    rw [List.getElem?_map, Option.map_eq_some_iff] at hno
    obtain ⟨y, hy, hyx⟩ := hno
    rw [← hyx]
    exact h i y hy
  · rw [List.getElem?_append_right (by simpa using hi), length_supersedeLast] at hx
    obtain ⟨hi', rfl⟩ : i - history.length = 0 ∧ g = x := by
      rw [List.getElem?_singleton] at hx
      split_ifs at hx with h0
      exact ⟨h0, Option.some.inj hx⟩
    rw [hg]
    congr 2
    omega

/-- The counter has not wrapped, or it cannot come round within the cap. -/
def NoWrap (policy : SessionPolicy) (n : ℕ) : Prop := n < 2 ^ 32 ∨ policy.cap < 2 ^ 32

theorem NoWrap.of_le {policy : SessionPolicy} {n n' : ℕ} (h : NoWrap policy n') (hn : n ≤ n') :
    NoWrap policy n := h.imp_left hn.trans_lt

namespace SessionEntry

variable {e : SessionEntry} {policy : SessionPolicy} {now : Timestamp}
  {history : List Generation} {k : ℕ}

theorem Window.oneCurrent (h : e.Window policy now history k) (hn : Consecutive history)
    (hc : e.currentGen = history.length % 2 ^ 32) (hlen : history.length - k ≤ 2 ^ 32) :
    e.OneCurrent := by
  intro gs g hg x hx
  obtain ⟨j, hj, rfl⟩ := List.getElem_of_mem hx
  have hl : gs.length + 1 = history.length - k := by
    rw [← List.length_drop, ← h.gens, hg, List.length_append, List.length_singleton]
  have hx' : history[k + j]? = some gs[j] := by
    rw [← List.getElem?_drop, ← h.gens, hg, List.getElem?_append_left hj,
      List.getElem?_eq_getElem hj]
  rw [hn _ _ hx', hc]
  omega

/-- **A mint moves the window** up by the generations it drops. -/
theorem Window.mint {token : SessionToken} (hs : e.Sound policy)
    (hf : token.hash ∉ e.allHashes) (h : e.Window policy now history k)
    (hr : e.Recorded history) (hc : Chronicle policy now history) (hn : Consecutive history)
    (hcur : e.currentGen = history.length % 2 ^ 32) (hlive : e.gens.length ≤ policy.cap)
    (hw : NoWrap policy (history.length + 1)) :
    (e.mint token now policy).1.Window policy now
      (supersedeLast now history ++ [e.minted token now policy])
      (k + (e.pushed token now policy).drops now policy) := by
  have hcur' : (e.currentGen + 1) % 2 ^ 32 = (history.length + 1) % 2 ^ 32 := by
    rw [hcur]
    omega
  have hpush := h.pushed hr token
  have hlen : (supersedeLast now history ++ [e.minted token now policy]).length =
      history.length + 1 := by simp
  have hchron : Chronicle policy now
      (supersedeLast now history ++ [e.minted token now policy]) := by
    obtain ⟨hs', es, g, rfl, -⟩ := hr.ends
    rw [supersedeLast_append]
    exact hc.push rfl rfl
  have hone : (e.pushed token now policy).OneCurrent := by
    refine hpush.oneCurrent (hn.push hcur') (by rw [hlen]; exact hcur') ?_
    have hl : e.gens.length = history.length - k := by rw [h.gens, List.length_drop]
    have hk := h.lt
    rw [hlen]
    rcases hw with hw | hw <;> omega
  exact hpush.reap (hs.pushed now hf) hchron hone

end SessionEntry

/-! ## Every session of a map -/

structure SessionMap.Tracked (now : Timestamp) (m : SessionMap) : Prop where
  chronicle : ∀ sid, Chronicle m.policy now (m.history sid)
  consecutive : ∀ sid, Consecutive (m.history sid)
  recorded : ∀ sid e, m.sessions sid = some e → e.Recorded (m.history sid)
  window : ∀ sid e, m.sessions sid = some e → NoWrap m.policy (m.history sid).length →
    ∃ k, e.Window m.policy now (m.history sid) k

namespace SessionMap

/-- What a mint makes of the session's history. -/
theorem history_mint {m : SessionMap} {token : SessionToken} {sid : Sid} {e : SessionEntry}
    (hk : m.Killings) (hh : ¬ m.Knows token.hash) (hrec : e.Recorded (m.history sid))
    (e' : SessionEntry) (now : Timestamp) :
    (m.commit sid e' (e.mint token now m.policy).2).history sid =
      supersedeLast now (m.history sid) ++ [e.minted token now m.policy] := by
  obtain ⟨hs, es, g, hhist, hes, -⟩ := hrec.ends
  have hnd : ((hs ++ [g]).map (·.tokenHash)).Nodup := by
    rw [← hhist, map_hash_history]
    exact hk.issued.sublist (issuedTo_sublist m sid)
  have hne : token.hash ≠ g.tokenHash := by
    intro hx
    have hmem : g.tokenHash ∈ m.issuedTo sid := by
      rw [← map_hash_history, hhist]
      exact List.mem_map_of_mem (List.mem_append_right _ (List.mem_singleton_self g))
    exact hh (Or.inr (hx ▸ (issuedTo_sublist m sid).subset hmem))
  have hsp : (e.mint token now m.policy).2.superseded = some (g.tokenHash, now) := by
    simp [SessionEntry.mint_eq, hes]
  rw [history_commit _ _ _ _ _ (by rintro _ ⟨⟩; rfl), if_pos rfl, hhist, supersedeLast_append, hsp,
    List.map_append, map_superseded_last hnd]
  simp [SessionEntry.mint_eq, SessionEntry.minted, Generation.superseded, hne]

/-- What a refresh makes of the histories. -/
theorem history_refresh {m : SessionMap} {hash : TokenHash} {token : SessionToken}
    {now : Timestamp} {sid : Sid} {e e' : SessionEntry} {cookies : IssuedCookies}
    {effects : IndexEffects} (hw : m.Wf) (hk : m.Killings) (hh : ¬ m.Knows token.hash)
    (he : m.sessions sid = some e) (hrec : e.Recorded (m.history sid))
    (hr : e.refresh hash token now m.policy = .ok (e', cookies, effects)) :
    (∀ s, s ≠ sid → (m.commit sid e' effects).history s = m.history s) ∧
    (e' = e.slide now m.policy ∧ (m.commit sid e' effects).history sid = m.history sid ∨
      e.Rotates hash now m.policy ∧ e' = (e.mint token now m.policy).1.slide now m.policy ∧
      (m.commit sid e' effects).history sid =
        supersedeLast now (m.history sid) ++ [e.minted token now m.policy]) := by
  have hnone : ∀ g ∈ effects.added, g.supersededAt = none := fun g hg => by
    rw [SessionEntry.refresh_added_eq hr g hg]
    rfl
  have hsup := SessionEntry.refresh_superseded hr
  constructor
  · intro s hs
    rw [history_commit _ _ _ _ _ hnone, if_neg (Ne.symm hs), List.append_nil]
    conv_rhs => rw [← List.map_id (m.history s)]
    refine List.map_congr_left fun g hg => ?_
    unfold Generation.superseded
    split
    · rfl
    · rename_i p hp
      refine if_neg fun hx => hs ?_
      -- the superseded hash is this session's
      have hmem : g.tokenHash ∈ m.issuedTo s := by
        rw [← map_hash_history]
        exact List.mem_map_of_mem hg
      have hidx : m.index g.tokenHash = some sid := (hw.index.mem he).2 (hx ▸ hsup p hp)
      exact (hk.owner s _ hmem sid hidx).symm
  · obtain ⟨husable, hcases⟩ := SessionEntry.refresh_cases hr
    rcases hcases with ⟨_, _, _, rfl, rfl, _⟩ | ⟨hrot, rfl, rfl, _⟩
    · left
      refine ⟨rfl, ?_⟩
      rw [history_commit _ _ _ _ _ hnone]
      simp
    · exact Or.inr ⟨⟨husable, hrot⟩, rfl, history_mint hk hh hrec _ now⟩

theorem tracked_withDurability (policy : SessionPolicy) (now : Timestamp) :
    (withDurability policy).Tracked now :=
  ⟨fun _ => Chronicle.nil, fun _ _ _ h => by simp [history, withDurability] at h,
    (fun _ _ h => by cases h), fun _ _ h => by cases h⟩

theorem Tracked.mono {m : SessionMap} {now now' : Timestamp} (h : m.Tracked now)
    (ht : now ≤ now') : m.Tracked now' :=
  ⟨fun sid => (h.chronicle sid).mono ht, h.consecutive, h.recorded, fun sid e he hw =>
    (h.window sid e he hw).imp fun _ hk => hk.mono ht⟩

/-- A move that keeps the histories, and of every entry the generations and the
    memory. -/
theorem Tracked.frame {m m' : SessionMap} {now : Timestamp} (h : m.Tracked now)
    (hp : m'.policy = m.policy) (hh : ∀ sid, m'.history sid = m.history sid)
    (he : ∀ sid e', m'.sessions sid = some e' → ∃ e, m.sessions sid = some e ∧
      e'.gens = e.gens ∧ e'.retired = e.retired) : m'.Tracked now := by
  refine ⟨fun sid => ?_, fun sid => ?_, fun sid e' he' => ?_, fun sid e' he' hw => ?_⟩
  · rw [hp, hh]
    exact h.chronicle sid
  · rw [hh]
    exact h.consecutive sid
  · obtain ⟨e, he, hg, -⟩ := he sid e' he'
    rw [hh]
    obtain ⟨hs, es, g, h₁, h₂, h₃⟩ := (h.recorded sid e he).ends
    exact ⟨hs, es, g, h₁, hg.trans h₂, h₃⟩
  · obtain ⟨e, he, hg, hr⟩ := he sid e' he'
    rw [hp, hh] at hw ⊢
    exact (h.window sid e he hw).imp fun _ hk => hk.congr hg hr

/-- A move that changes one session's history and entry. -/
theorem Tracked.change {m m' : SessionMap} {now : Timestamp} (h : m.Tracked now) (sid : Sid)
    (hp : m'.policy = m.policy) (hh : ∀ s, s ≠ sid → m'.history s = m.history s)
    (hs : ∀ s, s ≠ sid → m'.sessions s = m.sessions s)
    (hchron : Chronicle m.policy now (m'.history sid)) (hcons : Consecutive (m'.history sid))
    (hentry : ∀ e, m'.sessions sid = some e → e.Recorded (m'.history sid) ∧
      (NoWrap m.policy (m'.history sid).length →
        ∃ k, e.Window m.policy now (m'.history sid) k)) : m'.Tracked now where
  chronicle s := by
    rw [hp]
    by_cases hx : s = sid
    · rw [hx]
      exact hchron
    · rw [hh s hx]
      exact h.chronicle s
  consecutive s := by
    by_cases hx : s = sid
    · rw [hx]
      exact hcons
    · rw [hh s hx]
      exact h.consecutive s
  recorded s e he := by
    by_cases hx : s = sid
    · subst hx
      exact (hentry e he).1
    · rw [hs s hx] at he
      rw [hh s hx]
      exact h.recorded s e he
  window s e he hw := by
    rw [hp] at hw ⊢
    by_cases hx : s = sid
    · subst hx
      exact (hentry e he).2 hw
    · rw [hs s hx] at he
      rw [hh s hx] at hw ⊢
      exact h.window s e he hw

section
variable {policy : SessionPolicy} {m : SessionMap} {now : Timestamp} {sid : Sid} {e : SessionEntry}

theorem Tracked.create (h : m.Tracked now) (hnil : m.history sid = []) (custody : CustodyId)
    (sub : String) (token : SessionToken) : (m.create sid custody sub token now).1.Tracked now := by
  have hmine : (m.create sid custody sub token now).1.history sid =
      [⟨1, token.hash, now, now.plusSecs m.policy.genTtlSecs, none⟩] := by
    have hnew := history_create m sid sid now custody sub token
    rwa [hnil, if_pos rfl, List.nil_append] at hnew
  refine h.change sid rfl (fun s hx => ?_) (fun s hx => ?_) ?_ ?_ fun e he => ?_
  · rw [history_create, if_neg (Ne.symm hx), List.append_nil]
  · rw [create_sessions, Function.update_of_ne hx]
  · rw [hmine]
    exact ⟨List.pairwise_singleton .., by simp, List.pairwise_singleton .., by simp⟩
  · rw [hmine]
    intro i g hg
    rw [List.getElem?_singleton] at hg
    split_ifs at hg with h0
    cases hg
    subst h0
    rfl
  · rw [create_sessions, Function.update_self] at he
    cases he
    rw [hmine]
    exact ⟨⟨[], [], _, rfl, rfl, List.Sublist.refl _⟩,
      fun _ => ⟨0, rfl, Nat.one_pos, by simp [newEntry], fun _ _ _ h => by cases h⟩⟩

theorem Tracked.refresh {hash : TokenHash} {token : SessionToken} {e' : SessionEntry}
    {cookies : IssuedCookies} {effects : IndexEffects} (hk : m.Kept policy) (h : m.Tracked now)
    (hh : ¬ m.Knows token.hash) (he : m.sessions sid = some e)
    (hr : e.refresh hash token now m.policy = .ok (e', cookies, effects)) :
    (m.commit sid e' effects).Tracked now := by
  have hs := hk.wf.sound sid e he
  have hrec := h.recorded sid e he
  have hnew : token.hash ∉ e.allHashes := fun hx => by
    rw [← hk.wf.index.mem he] at hx
    exact hh (Or.inl (by rw [hx]; exact Option.some_ne_none sid))
  have hcur : e.currentGen = (m.history sid).length % 2 ^ 32 := by
    rw [length_history]
    exact (hk.counted.numbered sid e he).currentGen
  obtain ⟨hother, hmine⟩ := history_refresh hk.wf hk.killings hh he hrec hr
  rcases hmine with ⟨rfl, hmine⟩ | ⟨-, rfl, hmine⟩
  · -- coalesced
    refine h.frame (commit_policy ..) (fun s => ?_) ?_
    · by_cases hx : s = sid
      · rw [hx, hmine]
      · exact hother s hx
    · rw [commit_sessions]
      exact forall_update (fun s e₀ he₀ => ⟨e₀, he₀, rfl, rfl⟩)
        (by rintro _ ⟨⟩; exact ⟨e, he, rfl, rfl⟩)
  · -- minted
    refine h.change sid (commit_policy ..) hother (fun s hx => ?_) ?_ ?_ fun e₁ he₁ => ?_
    · rw [commit_sessions, Function.update_of_ne hx]
    · rw [hmine]
      obtain ⟨hs', es, g, hhist, -⟩ := hrec.ends
      have hchron := h.chronicle sid
      rw [hhist] at hchron ⊢
      rw [supersedeLast_append]
      exact hchron.push rfl rfl
    · rw [hmine]
      refine (h.consecutive sid).push ?_
      show (e.currentGen + 1) % 2 ^ 32 = _
      rw [hcur]
      omega
    · rw [commit_sessions, Function.update_self] at he₁
      cases he₁
      rw [hmine]
      refine ⟨⟨((hrec.pushed token now m.policy).reap now (hs.pushed now hnew)).ends⟩, fun hw => ?_⟩
      have hw' : NoWrap m.policy ((m.history sid).length + 1) := by simpa using hw
      obtain ⟨k, hwin⟩ := h.window sid e he (hw'.of_le (Nat.le_succ _))
      have hminted := hwin.mint hs hnew hrec (h.chronicle sid) (h.consecutive sid) hcur
        (hk.capped sid e he) hw'
      exact ⟨_, hminted.congr rfl rfl⟩

theorem Tracked.reap (hk : m.Kept policy) (h : m.Tracked now) (he : m.sessions sid = some e) :
    (m.reap sid e now).Tracked now := by
  have hs := hk.wf.sound sid e he
  refine h.change sid (reap_policy ..) (fun s _ => history_reap ..) (fun s hx => ?_) ?_ ?_
    fun e₁ he₁ => ?_
  · rw [reap_sessions, Function.update_of_ne hx]
  · rw [history_reap]
    exact h.chronicle sid
  · rw [history_reap]
    exact h.consecutive sid
  · rw [reap_sessions, Function.update_self] at he₁
    cases he₁
    rw [history_reap]
    refine ⟨(h.recorded sid e he).reap now hs, fun hw => ?_⟩
    obtain ⟨k, hwin⟩ := h.window sid e he hw
    have hcur : e.currentGen = (m.history sid).length % 2 ^ 32 := by
      rw [length_history]
      exact (hk.counted.numbered sid e he).currentGen
    have hlen : (m.history sid).length - k ≤ 2 ^ 32 := by
      have hcap := hk.capped sid e he
      rw [hwin.gens, List.length_drop] at hcap
      rcases hw with hw | hw <;> omega
    exact ⟨_, hwin.reap hs (h.chronicle sid) (hwin.oneCurrent (h.consecutive sid) hcur hlen)⟩

end

/-- **One move**, made at `now` if it reads the clock. -/
theorem Tracked.move {policy : SessionPolicy} {op : Op} {m m' : SessionMap} {now : Timestamp}
    (hk : m.Kept policy) (h : m.Tracked now) (hop : ∀ u, op.now = some u → u = now)
    (hm : Move op m m') : m'.Tracked now := by
  have same : ∀ sid e, m.sessions sid = some e → ∃ e₀, m.sessions sid = some e₀ ∧
      e.gens = e₀.gens ∧ e.retired = e₀.retired := fun sid e he => ⟨e, he, rfl, rfl⟩
  cases hm with
  | @create _ sid custody sub token u hh hs =>
    obtain rfl := hop u rfl
    refine h.create ?_ custody sub token
    rw [← List.length_eq_zero_iff, length_history]
    exact not_not.1 fun hn => hs (Or.inr (hk.counted.generations sid hn))
  | @refresh _ hash token u sid e e' cookies effects hh hi he hr =>
    obtain rfl := hop u rfl
    exact h.refresh hk hh he hr
  | @kill _ op sid e u reason hkill he ha =>
    refine h.frame rfl (fun s => history_kill ..) ?_
    rw [kill_sessions]
    exact forall_update same (by rintro _ ⟨⟩; exact ⟨e, he, rfl, rfl⟩)
  | @touch _ order custody status sid e he hc =>
    exact h.frame rfl (fun _ => rfl)
      (forall_update same (by rintro _ ⟨⟩; exact ⟨e, he, rfl, rfl⟩))
  | announce => exact h.frame rfl (fun _ => rfl) same
  | @reap _ order u sid e he =>
    obtain rfl := hop u rfl
    exact h.reap hk he
  | @remove _ order u sid e he hcol =>
    refine h.frame (forget_policy ..) (fun s => history_forget ..) ?_
    rw [forget_sessions]
    exact forall_update same (fun _ h => by cases h)

/-- **Runs at nondecreasing times.** -/
theorem tracked_run (policy : SessionPolicy) {ops : List Op} (hf : Fresh ops)
    (hn : Nondecreasing Op.now ops) {now : Timestamp} (ht : NotBefore Op.now ops now) :
    (runs policy ops).Tracked now := by
  have hrun : (fun t m => m.Kept policy ∧ m.Tracked t) now (run step (withDurability policy) ops) :=
    timed_moves_invariant Fresh (fun t m => m.Kept policy ∧ m.Tracked t)
      (fun _ _ h => h.of_append) (fun _ _ h => step_moves (h.from policy).freshIn)
      (fun t => ⟨kept_withDurability policy, tracked_withDurability policy t⟩)
      (fun t t' m htt h => ⟨h.1, h.2.mono htt⟩)
      (fun _ op t m m' _ hop h hm => ⟨h.1.move hm, h.2.move h.1 hop hm⟩) ops hf hn now ht
  exact hrun.2

end SessionMap

end SessionBroker
