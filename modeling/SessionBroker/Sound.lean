/-
  What is true of every session entry, whatever was called and when.

  * `Sound`: the current generation comes last and is the only one not
    superseded, the memory is within its bound, and no hash is held twice;
  * `Numbered`: the `gen_no`s are an increasing sequence, modulo `2^32`, that
    ends with the number of generations issued so far.
-/
import SessionBroker.Reap
import Mathlib.Data.List.Nodup

namespace SessionBroker

open Bounded

namespace SessionEntry

/-! ## Soundness -/

/-- `g` comes after `gs`, is current, and is the only generation not superseded. -/
structure Ends (e : SessionEntry) (gs : List Generation) (g : Generation) : Prop where
  gens : e.gens = gs ++ [g]
  genNo : g.genNo = e.currentGen
  current : g.supersededAt = none
  superseded : ∀ h ∈ gs, h.supersededAt ≠ none
  token : ∀ token, e.currentToken = some token → token.hash = g.tokenHash

structure Sound (e : SessionEntry) (policy : SessionPolicy) : Prop where
  ends : ∃ gs g, e.Ends gs g
  memory : e.retired.length ≤ policy.retiredMemory
  idle : e.idleExp ≤ e.absoluteExp
  nodup : e.allHashes.Nodup

section
variable {e : SessionEntry} {policy : SessionPolicy} {token : SessionToken} {now : Timestamp}

theorem Ends.current_eq {gs : List Generation} {g : Generation} (h : e.Ends gs g) :
    e.current = g := by
  simp [SessionEntry.current, h.gens, List.getLast!_eq_getLast?_getD]

theorem Sound.slide (h : e.Sound policy) : (e.slide now policy).Sound policy := by
  obtain ⟨⟨gs, g, hg⟩, hm, -, hn⟩ := h
  exact ⟨⟨gs, g, hg.gens, hg.genNo, hg.current, hg.superseded, hg.token⟩, hm, min_le_right _ _, hn⟩

theorem Sound.kill (h : e.Sound policy) (now : Timestamp) : (e.killed now).Sound policy := by
  obtain ⟨⟨gs, g, hg⟩, hm, hi, hn⟩ := h
  exact ⟨⟨gs, g, hg.gens, hg.genNo, hg.current, hg.superseded, fun _ h => by cases h⟩, hm, hi, hn⟩

theorem Sound.touch (h : e.Sound policy) (custodyStatus : CustodyStatus) :
    Sound { e with custodyStatus } policy := by
  obtain ⟨⟨gs, g, hg⟩, hm, hi, hn⟩ := h
  exact ⟨⟨gs, g, hg.gens, hg.genNo, hg.current, hg.superseded, hg.token⟩, hm, hi, hn⟩

theorem Sound.reap (h : e.Sound policy) : (e.reapGenerations now policy).1.Sound policy := by
  obtain ⟨⟨gs, g, hg⟩, hm, hi, hn⟩ := h
  refine ⟨⟨_, g, reap_concat hm hg.gens hg.genNo, ?_, hg.current, fun h hh => ?_, ?_⟩,
    reap_retired_le hm, ?_, ?_⟩
  · simpa using hg.genNo
  · exact hg.superseded h (List.mem_of_mem_filter ((keepLast_sublist ..).subset hh))
  · simpa using hg.token
  · simpa using hi
  · have hn' := (reap_hashes now hm).nodup_iff.2 hn
    exact (List.nodup_append.1 hn').1

/-- A reap leaves the current generation alone. -/
theorem Sound.reap_current (h : e.Sound policy) (now : Timestamp) :
    (e.reapGenerations now policy).1.current = e.current := by
  obtain ⟨⟨gs, g, hg⟩, hm, -, -⟩ := h
  simp [SessionEntry.current, reap_concat hm hg.gens hg.genNo, hg.gens,
    List.getLast!_eq_getLast?_getD]

theorem Sound.current_genNo (h : e.Sound policy) : e.current.genNo = e.currentGen := by
  obtain ⟨⟨gs, g, hg⟩, -, -, -⟩ := h
  rw [hg.current_eq, hg.genNo]

theorem Sound.current_mem (h : e.Sound policy) : e.current ∈ e.gens := by
  obtain ⟨⟨gs, g, hg⟩, -, -, -⟩ := h
  rw [hg.current_eq, hg.gens]
  exact List.mem_append_right _ (List.mem_singleton_self g)

@[simp] theorem pushed_allHashes_perm :
    (e.pushed token now policy).allHashes.Perm (token.hash :: e.allHashes) := by
  simp only [pushed, allHashes, List.map_append, map_hash_supersedeLast, List.map_cons,
    List.map_nil, List.append_assoc, List.singleton_append]
  exact List.perm_middle

theorem Sound.pushed (h : e.Sound policy) (now : Timestamp) (hf : token.hash ∉ e.allHashes) :
    (e.pushed token now policy).Sound policy := by
  obtain ⟨⟨gs, g, hg⟩, hm, hi, hn⟩ := h
  refine ⟨⟨gs ++ [{ g with supersededAt := some now }], e.minted token now policy,
    ?_, rfl, rfl, fun h hh => ?_, ?_⟩, hm, hi, ?_⟩
  · simp only [SessionEntry.pushed, hg.gens, supersedeLast_append]
  · rcases List.mem_append.1 hh with hh | hh
    · exact hg.superseded h hh
    · rw [List.mem_singleton.1 hh]; exact Option.some_ne_none _
  · rintro _ ⟨⟩; rfl
  · exact pushed_allHashes_perm.nodup_iff.2 (List.nodup_cons.2 ⟨hf, hn⟩)

theorem Sound.mint (h : e.Sound policy) (hf : token.hash ∉ e.allHashes) :
    (e.mint token now policy).1.Sound policy := (h.pushed now hf).reap

/-- **A refresh keeps the entry sound.** -/
theorem Sound.refresh {e' : SessionEntry} {hash : TokenHash} {cookies : IssuedCookies}
    {effects : IndexEffects} (h : e.Sound policy) (hf : token.hash ∉ e.allHashes)
    (hr : e.refresh hash token now policy = .ok (e', cookies, effects)) : e'.Sound policy := by
  rcases (refresh_cases hr).2 with ⟨_, _, _, rfl, _⟩ | ⟨_, rfl, _⟩
  · exact h.slide
  · exact (h.mint hf).slide

/-- What a refresh leaves alone. -/
theorem refresh_frame {e' : SessionEntry} {hash : TokenHash} {cookies : IssuedCookies}
    {effects : IndexEffects} (hr : e.refresh hash token now policy = .ok (e', cookies, effects)) :
    ∃ gens currentGen currentToken idleExp retired,
      e' = { e with gens, currentGen, currentToken, idleExp, retired } := by
  rcases (refresh_cases hr).2 with ⟨_, _, _, rfl, _⟩ | ⟨_, rfl, _⟩
  · exact ⟨_, _, _, _, _, rfl⟩
  · obtain ⟨gens, retired, purged, h⟩ := (e.pushed token now policy).reap_frame now policy
    have hm : (e.mint token now policy).1 = { e.pushed token now policy with gens, retired } :=
      congrArg Prod.fst h
    rw [hm]
    exact ⟨_, _, _, _, _, rfl⟩

theorem refresh_sid {e' : SessionEntry} {hash : TokenHash} {cookies : IssuedCookies}
    {effects : IndexEffects} (hr : e.refresh hash token now policy = .ok (e', cookies, effects)) :
    e'.sid = e.sid := by
  obtain ⟨_, _, _, _, _, rfl⟩ := refresh_frame hr
  rfl

theorem refresh_status {e' : SessionEntry} {hash : TokenHash} {cookies : IssuedCookies}
    {effects : IndexEffects} (hr : e.refresh hash token now policy = .ok (e', cookies, effects)) :
    e'.status = e.status := by
  obtain ⟨_, _, _, _, _, rfl⟩ := refresh_frame hr
  rfl

/-- A mint loses no hash without purging it. -/
theorem mint_hashes (hm : e.retired.length ≤ policy.retiredMemory) :
    ((e.mint token now policy).1.allHashes ++ (e.mint token now policy).2.purged).Perm
      (token.hash :: e.allHashes) :=
  (reap_hashes (e := e.pushed token now policy) now hm).trans pushed_allHashes_perm

/-- **No hash is lost by a refresh** without being purged. -/
theorem refresh_hashes {e' : SessionEntry} {hash : TokenHash} {cookies : IssuedCookies}
    {effects : IndexEffects} (hm : e.retired.length ≤ policy.retiredMemory)
    (hr : e.refresh hash token now policy = .ok (e', cookies, effects)) :
    (e'.allHashes ++ effects.purged).Perm
      (effects.added.toList.map (·.tokenHash) ++ e.allHashes) := by
  rcases (refresh_cases hr).2 with ⟨_, _, _, rfl, rfl, _⟩ | ⟨_, rfl, rfl, _⟩
  · rw [List.append_nil]; exact List.Perm.refl _
  · exact mint_hashes hm

/-- A mint leaves at most the cap. -/
theorem mint_length_le (hm : e.retired.length ≤ policy.retiredMemory) :
    (e.mint token now policy).1.gens.length ≤ policy.cap :=
  reap_length_le (e := e.pushed token now policy) hm

end

/-! ## Verdicts -/

section
variable {e : SessionEntry} {policy : SessionPolicy} {t t' : Timestamp} {hash : TokenHash}

theorem sessionExpiry_eq_none : e.sessionExpiry t policy = none ↔
    e.status = .alive ∧ t < e.absoluteExp ∧ t < e.idleExp ∧
      ¬ (e.custodyStatus = .dead ∧ policy.onUpstreamRevoked = .kill) := by
  have halive : e.status = .alive ↔ e.status ≠ .tombstoned := by
    cases e.status <;> simp
  unfold sessionExpiry
  rw [halive]
  split_ifs with h₁ h₂ h₃ h₄
  · simp [h₁]
  · simp [not_lt.2 h₂]
  · simp [not_lt.2 h₃]
  · simp [h₄]
  · simp only [true_iff]
    exact ⟨h₁, not_le.1 h₂, not_le.1 h₃, h₄⟩

/-- An expired session stays expired. -/
theorem sessionExpiry_mono (ht : t ≤ t') (h : e.sessionExpiry t policy ≠ none) :
    e.sessionExpiry t' policy ≠ none := by
  intro hx
  refine h (sessionExpiry_eq_none.2 ?_)
  obtain ⟨h₁, h₂, h₃, h₄⟩ := sessionExpiry_eq_none.1 hx
  exact ⟨h₁, ht.trans_lt h₂, ht.trans_lt h₃, h₄⟩

/-- Only an expired session is collected. -/
theorem expired_of_collectible (h : e.collectible t policy) : e.sessionExpiry t policy ≠ none := by
  intro hx
  simp [collectible, hx] at h

/-- A hash finds the one generation that has it. -/
theorem find?_generation {gens : List Generation} (hn : (gens.map (·.tokenHash)).Nodup)
    {g : Generation} :
    gens.find? (fun g => g.tokenHash = hash) = some g ↔ g ∈ gens ∧ g.tokenHash = hash := by
  constructor
  · exact fun h => ⟨List.mem_of_find?_eq_some h, by simpa using List.find?_some h⟩
  · rintro ⟨hg, rfl⟩
    cases hf : gens.find? (fun g' => g'.tokenHash = g.tokenHash) with
    | none => simpa using List.find?_eq_none.1 hf g hg
    | some g' =>
      have hh : g'.tokenHash = g.tokenHash := by simpa using List.find?_some hf
      rw [List.inj_on_of_nodup_map hn (List.mem_of_find?_eq_some hf) hg hh]

theorem Sound.gens_nodup (h : e.Sound policy) : (e.gens.map (·.tokenHash)).Nodup :=
  (List.nodup_append.1 h.nodup).1

/-- The verdict on a generation still held, while the session is not expired. -/
theorem classify_of_mem (hn : (e.gens.map (·.tokenHash)).Nodup)
    (hx : e.sessionExpiry t policy = none) {g : Generation} (hg : g ∈ e.gens) :
    e.classify g.tokenHash t policy =
      if t < g.resourceValidUntil policy.graceSecs then
        .active e.sid g.genNo (g.genNo = e.currentGen)
      else if g.genNo = e.currentGen then .staleRefreshable e.sid g.genNo
      else .retired e.sid g.genNo := by
  have hf := (find?_generation hn).2 ⟨hg, rfl⟩
  simp only [classify, hx, hf]

/-- What can refresh is a generation still held. -/
theorem mem_of_refreshable (h : (e.classify hash t policy).refreshable = true) :
    e.sessionExpiry t policy = none ∧ ∃ g ∈ e.gens, g.tokenHash = hash := by
  unfold classify at h
  cases hx : e.sessionExpiry t policy with
  | some reason => simp [hx, Resolution.refreshable] at h
  | none =>
    refine ⟨rfl, ?_⟩
    cases hf : e.gens.find? (fun g => g.tokenHash = hash) with
    | some g => exact ⟨g, List.mem_of_find?_eq_some hf, by simpa using List.find?_some hf⟩
    | none =>
      simp only [hx, hf] at h
      cases hr : e.retired.find? (fun r => r.1 = hash) <;> simp [hr, Resolution.refreshable] at h

/-- **What authenticates**: a generation still held and still valid, while the
    session is not expired. -/
theorem classify_authenticates (hn : (e.gens.map (·.tokenHash)).Nodup) :
    (e.classify hash t policy).authenticates = true ↔ e.sessionExpiry t policy = none ∧
      ∃ g ∈ e.gens, g.tokenHash = hash ∧ t < g.resourceValidUntil policy.graceSecs := by
  unfold classify
  cases hx : e.sessionExpiry t policy with
  | some reason => simp [Resolution.authenticates]
  | none =>
    cases hf : e.gens.find? (fun g => g.tokenHash = hash) with
    | some g =>
      obtain ⟨hg, hh⟩ := (find?_generation hn).1 hf
      have hiff : (∃ g' ∈ e.gens, g'.tokenHash = hash ∧
          t < g'.resourceValidUntil policy.graceSecs) ↔
          t < g.resourceValidUntil policy.graceSecs := by
        constructor
        · rintro ⟨g', hg', hh', hv⟩
          rwa [List.inj_on_of_nodup_map hn hg hg' (hh.trans hh'.symm)]
        · intro hv
          exact ⟨g, hg, hh, hv⟩
      simp only [hiff, true_and]
      split_ifs with h₁ h₂ <;> simp [Resolution.authenticates, h₁]
    | none =>
      have hno : ∀ g ∈ e.gens, g.tokenHash ≠ hash := fun g hg => by
        simpa using List.find?_eq_none.1 hf g hg
      have : ¬ ∃ g ∈ e.gens, g.tokenHash = hash ∧ t < g.resourceValidUntil policy.graceSecs := by
        rintro ⟨g, hg, hh, -⟩
        exact hno g hg hh
      simp only [this, and_false, iff_false]
      cases e.retired.find? (fun r => r.1 = hash) <;> simp [Resolution.authenticates]

end

/-! ## Numbering -/

/-- The generations are numbered, modulo `2^32`, by an increasing sequence up
    to `n`, the number of the current one. -/
structure Numbered (e : SessionEntry) (n : ℕ) : Prop where
  currentGen : e.currentGen = n % 2 ^ 32
  gens : ∃ ns : List ℕ, ns.Pairwise (· < ·) ∧ (∀ k ∈ ns, k ≤ n) ∧
    e.gens.map (·.genNo) = ns.map (· % 2 ^ 32)

section
variable {e : SessionEntry} {policy : SessionPolicy} {token : SessionToken} {now : Timestamp}
  {n : ℕ}

/-- Dropping generations keeps the numbering. -/
theorem Numbered.sublist {e' : SessionEntry} (h : e.Numbered n)
    (hg : e'.gens.Sublist e.gens) (hc : e'.currentGen = e.currentGen) : e'.Numbered n := by
  obtain ⟨ns, hp, hn, hm⟩ := h.gens
  have hs : (e'.gens.map (·.genNo)).Sublist (ns.map (· % 2 ^ 32)) := hm ▸ hg.map _
  obtain ⟨ns', hs', he⟩ := List.sublist_map_iff.1 hs
  exact ⟨hc.trans h.currentGen, ns', hp.sublist hs', fun k hk => hn k (hs'.subset hk), he⟩

theorem Numbered.pushed (h : e.Numbered n) (token : SessionToken) (now : Timestamp)
    (policy : SessionPolicy) : (e.pushed token now policy).Numbered (n + 1) := by
  obtain ⟨ns, hp, hn, hm⟩ := h.gens
  have hc : (e.currentGen + 1) % 2 ^ 32 = (n + 1) % 2 ^ 32 := by rw [h.currentGen]; omega
  refine ⟨hc, ns ++ [n + 1], ?_, ?_, ?_⟩
  · rw [List.pairwise_append]
    refine ⟨hp, List.pairwise_singleton _ _, fun a ha b hb => ?_⟩
    rw [List.mem_singleton.1 hb]
    exact Nat.lt_succ_of_le (hn a ha)
  · intro k hk
    rcases List.mem_append.1 hk with hk | hk
    · exact (hn k hk).trans n.le_succ
    · exact (List.mem_singleton.1 hk).le
  · simp only [SessionEntry.pushed, minted, List.map_append, map_genNo_supersedeLast, hm,
      List.map_cons, List.map_nil, hc]

theorem Numbered.mint (h : e.Numbered n) (token : SessionToken) (now : Timestamp)
    (hm : e.retired.length ≤ policy.retiredMemory) :
    (e.mint token now policy).1.Numbered (n + 1) :=
  (h.pushed token now policy).sublist (reap_sublist hm)
    (reap_currentGen ..)

theorem Numbered.refresh {e' : SessionEntry} {hash : TokenHash} {cookies : IssuedCookies}
    {effects : IndexEffects} (h : e.Numbered n) (hm : e.retired.length ≤ policy.retiredMemory)
    (hr : e.refresh hash token now policy = .ok (e', cookies, effects)) :
    e'.Numbered (n + effects.added.toList.length) := by
  rcases (refresh_cases hr).2 with ⟨_, _, _, rfl, rfl, _⟩ | ⟨_, rfl, rfl, _⟩
  · exact h.sublist (List.Sublist.refl _) rfl
  · exact (h.mint token now hm).sublist (List.Sublist.refl _) rfl

/-- Before the counter wraps the numbers themselves increase. -/
theorem Numbered.increasing (h : e.Numbered n) (hn : n < 2 ^ 32) :
    e.gens.Pairwise fun g g' => g.genNo < g'.genNo := by
  obtain ⟨ns, hp, hle, hm⟩ := h.gens
  have hid : ns.map (· % 2 ^ 32) = ns := by
    conv_rhs => rw [← List.map_id ns]
    exact List.map_congr_left fun k hk => Nat.mod_eq_of_lt ((hle k hk).trans_lt hn)
  rw [← List.pairwise_map, hm, hid]
  exact hp

end

end SessionEntry

end SessionBroker
