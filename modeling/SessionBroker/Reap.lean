/-
  What the entry-level calls come to, loops solved.

  * `reapGenerations_eq`: the lapsed generations and the oldest ones over the
    cap go, the retirement memory keeps the newest `retired_memory` hashes, and
    what falls out of it is purged;
  * `Mutates`: the shape every successful refresh and every reap shares, with
    no hash lost between the generations, the memory and the purge list;
  * `refresh_cases`: the one inversion of `refresh`.
-/
import SessionBroker.Entry
import SessionBroker.Lib.Bounded
import Mathlib.Data.List.Induction

namespace SessionBroker

open Bounded

/-- The pair the retirement memory keeps of a generation. -/
def Generation.key (g : Generation) : TokenHash × ℕ := (g.tokenHash, g.genNo)

theorem popFront_eq (n : ℕ) (rs : List (TokenHash × ℕ)) :
    popFront n rs = (keepLast n rs, (overflow n rs).map (·.1)) := by
  induction rs with
  | nil => simp [popFront]
  | cons r rs ih =>
    rw [popFront]
    split_ifs with h
    · rw [ih, keepLast_cons h, overflow_cons h]; rfl
    · rw [keepLast_of_length_le (not_lt.1 h), overflow_of_length_le (not_lt.1 h)]; rfl

@[simp] theorem supersedeLast_append (now : Timestamp) (gens : List Generation) (g : Generation) :
    supersedeLast now (gens ++ [g]) = gens ++ [{ g with supersededAt := some now }] := by
  induction gens with
  | nil => rfl
  | cons h gens ih =>
    cases gens with
    | nil => rfl
    | cons h' gens => rw [List.cons_append] at ih ⊢; simp only [List.cons_append, supersedeLast, ih]

@[simp] theorem map_hash_supersedeLast (now : Timestamp) (gens : List Generation) :
    (supersedeLast now gens).map (·.tokenHash) = gens.map (·.tokenHash) := by
  induction gens using List.reverseRecOn with
  | nil => rfl
  | append_singleton gens g => simp

@[simp] theorem map_genNo_supersedeLast (now : Timestamp) (gens : List Generation) :
    (supersedeLast now gens).map (·.genNo) = gens.map (·.genNo) := by
  induction gens using List.reverseRecOn with
  | nil => rfl
  | append_singleton gens g => simp

@[simp] theorem length_supersedeLast (now : Timestamp) (gens : List Generation) :
    (supersedeLast now gens).length = gens.length := by
  rw [← List.length_map (·.tokenHash), map_hash_supersedeLast, List.length_map]

namespace SessionEntry

/-! ## Reaping, solved -/

section
variable (e : SessionEntry) (now : Timestamp) (policy : SessionPolicy)

/-- A generation the first loop of `reap_generations` retires. -/
def lapsed (g : Generation) : Bool :=
  g.genNo ≠ e.currentGen ∧ g.resourceValidUntil policy.graceSecs ≤ now

/-- The generations the first loop keeps. -/
def kept : List Generation := e.gens.filter fun g => !e.lapsed now policy g

/-- The generations a reap drops, in the order in which it retires them. -/
def dropped : List Generation :=
  e.gens.filter (e.lapsed now policy) ++ overflow policy.cap (e.kept now policy)

end

/-- `retire` on a list of generations, one after the other. -/
theorem foldl_retire (policy : SessionPolicy) (gs : List Generation) (e : SessionEntry)
    (effects : IndexEffects) (h : e.retired.length ≤ policy.retiredMemory) :
    gs.foldl (fun r g => r.1.retire g r.2 policy) (e, effects) =
      ({ e with retired := keepLast policy.retiredMemory (e.retired ++ gs.map (·.key)) },
        { effects with purged := effects.purged ++
            (overflow policy.retiredMemory (e.retired ++ gs.map (·.key))).map (·.1) }) := by
  induction gs generalizing e effects with
  | nil => simp [keepLast_of_length_le h, overflow_of_length_le h]
  | cons g gs ih =>
    rw [List.foldl_cons, retire, popFront_eq, ih _ _ (length_keepLast_le ..)]
    simp only [List.map_cons, List.append_assoc, ← List.map_append, keepLast_append,
      overflow_append, List.singleton_append, Generation.key]

theorem reapLoop_eq (now : Timestamp) (policy : SessionPolicy) (gens : List Generation)
    (e : SessionEntry) (effects : IndexEffects) (kept : List Generation) :
    reapLoop now policy gens e effects kept =
      let r := (gens.filter (e.lapsed now policy)).foldl (fun r g => r.1.retire g r.2 policy)
        (e, effects)
      (r.1, r.2, kept ++ gens.filter fun g => !e.lapsed now policy g) := by
  induction gens generalizing e effects kept with
  | nil => simp [reapLoop]
  | cons g gs ih =>
    have hc : ∀ eff, (e.retire g eff policy).1.lapsed now policy = e.lapsed now policy :=
      fun _ => rfl
    rw [reapLoop]
    split_ifs with h
    · have hl : e.lapsed now policy g := by simpa [lapsed] using h
      simp only [ih, hc, List.filter_cons, hl, if_true, List.foldl_cons]
      simp
    · have hl : e.lapsed now policy g = false := by simpa [lapsed] using h
      simp only [ih, List.filter_cons, hl]
      simp

theorem capLoop_eq (policy : SessionPolicy) (gens : List Generation) (e : SessionEntry)
    (effects : IndexEffects) :
    capLoop policy gens e effects =
      let r := (overflow policy.cap gens).foldl (fun r g => r.1.retire g r.2 policy) (e, effects)
      ({ r.1 with gens := keepLast policy.cap gens }, r.2) := by
  induction gens generalizing e effects with
  | nil => simp [capLoop]
  | cons g gs ih =>
    rw [capLoop]
    split_ifs with h
    · rw [ih, overflow_cons h, keepLast_cons h]; rfl
    · rw [overflow_of_length_le (not_lt.1 h), keepLast_of_length_le (not_lt.1 h)]; rfl

/-- **Reaping.** -/
theorem reapGenerations_eq (e : SessionEntry) (now : Timestamp) (policy : SessionPolicy)
    (h : e.retired.length ≤ policy.retiredMemory) :
    e.reapGenerations now policy =
      ({ e with
          gens := keepLast policy.cap (e.kept now policy)
          retired := keepLast policy.retiredMemory
            (e.retired ++ (e.dropped now policy).map (·.key)) },
        { purged := (overflow policy.retiredMemory
            (e.retired ++ (e.dropped now policy).map (·.key))).map (·.1) }) := by
  have hl : SessionEntry.lapsed { e with gens := [] } now policy = e.lapsed now policy := rfl
  rw [reapGenerations, reapLoop_eq, hl, foldl_retire _ _ _ _ (by exact h)]
  simp only [List.nil_append]
  rw [capLoop_eq, foldl_retire _ _ _ _ (length_keepLast_le ..)]
  simp only [keepLast_append, List.append_assoc, ← List.map_append, overflow_append]
  simp only [dropped, kept, List.map_append]

theorem foldl_retire_frame (policy : SessionPolicy) (gs : List Generation)
    (r : SessionEntry × IndexEffects) :
    ∃ retired purged, gs.foldl (fun r g => r.1.retire g r.2 policy) r =
      ({ r.1 with retired }, { r.2 with purged }) := by
  induction gs generalizing r with
  | nil => exact ⟨_, _, rfl⟩
  | cons g gs ih =>
    obtain ⟨retired, purged, h⟩ := ih (r.1.retire g r.2 policy)
    exact ⟨retired, purged, h⟩

/-- A reap touches the generations and the memory only, and only purges. -/
theorem reap_frame (e : SessionEntry) (now : Timestamp) (policy : SessionPolicy) :
    ∃ gens retired purged, e.reapGenerations now policy =
      ({ e with gens, retired }, ({ purged } : IndexEffects)) := by
  rw [reapGenerations, reapLoop_eq]
  obtain ⟨retired, purged, h⟩ := foldl_retire_frame policy
    (e.gens.filter (SessionEntry.lapsed { e with gens := [] } now policy))
    ({ e with gens := [] }, ({} : IndexEffects))
  simp only [capLoop_eq, h]
  obtain ⟨retired', purged', h'⟩ := foldl_retire_frame policy (overflow policy.cap
    ([] ++ e.gens.filter fun g => !SessionEntry.lapsed { e with gens := [] } now policy g))
    ({ e with gens := [], retired }, ({ purged } : IndexEffects))
  rw [h']
  exact ⟨_, _, _, rfl⟩

section
variable (e : SessionEntry) (now : Timestamp) (policy : SessionPolicy)

@[simp] theorem reap_sid : (e.reapGenerations now policy).1.sid = e.sid := by
  obtain ⟨_, _, _, h⟩ := e.reap_frame now policy; rw [h]

@[simp] theorem reap_custody : (e.reapGenerations now policy).1.custody = e.custody := by
  obtain ⟨_, _, _, h⟩ := e.reap_frame now policy; rw [h]

@[simp] theorem reap_sub : (e.reapGenerations now policy).1.sub = e.sub := by
  obtain ⟨_, _, _, h⟩ := e.reap_frame now policy; rw [h]

@[simp] theorem reap_currentGen : (e.reapGenerations now policy).1.currentGen = e.currentGen := by
  obtain ⟨_, _, _, h⟩ := e.reap_frame now policy; rw [h]

@[simp] theorem reap_currentToken : (e.reapGenerations now policy).1.currentToken = e.currentToken := by
  obtain ⟨_, _, _, h⟩ := e.reap_frame now policy; rw [h]

@[simp] theorem reap_idleExp : (e.reapGenerations now policy).1.idleExp = e.idleExp := by
  obtain ⟨_, _, _, h⟩ := e.reap_frame now policy; rw [h]

@[simp] theorem reap_absoluteExp : (e.reapGenerations now policy).1.absoluteExp = e.absoluteExp := by
  obtain ⟨_, _, _, h⟩ := e.reap_frame now policy; rw [h]

@[simp] theorem reap_status : (e.reapGenerations now policy).1.status = e.status := by
  obtain ⟨_, _, _, h⟩ := e.reap_frame now policy; rw [h]

@[simp] theorem reap_tombstonedAt : (e.reapGenerations now policy).1.tombstonedAt = e.tombstonedAt := by
  obtain ⟨_, _, _, h⟩ := e.reap_frame now policy; rw [h]

@[simp] theorem reap_custodyStatus : (e.reapGenerations now policy).1.custodyStatus = e.custodyStatus := by
  obtain ⟨_, _, _, h⟩ := e.reap_frame now policy; rw [h]

@[simp] theorem reap_added : (e.reapGenerations now policy).2.added = none := by
  obtain ⟨_, _, _, h⟩ := e.reap_frame now policy; rw [h]

@[simp] theorem reap_superseded : (e.reapGenerations now policy).2.superseded = none := by
  obtain ⟨_, _, _, h⟩ := e.reap_frame now policy; rw [h]

end

/-- The generation a mint adds. -/
def minted (e : SessionEntry) (token : SessionToken) (now : Timestamp) (policy : SessionPolicy) :
    Generation :=
  ⟨(e.currentGen + 1) % 2 ^ 32, token.hash, now, now.plusSecs policy.genTtlSecs, none⟩

/-- The entry a mint reaps: the current generation superseded, the new one
    pushed. -/
def pushed (e : SessionEntry) (token : SessionToken) (now : Timestamp) (policy : SessionPolicy) :
    SessionEntry :=
  { e with
    currentGen := (e.currentGen + 1) % 2 ^ 32
    gens := supersedeLast now e.gens ++ [e.minted token now policy]
    currentToken := some token }

@[simp] theorem minted_tokenHash (e : SessionEntry) (token : SessionToken) (now : Timestamp)
    (policy : SessionPolicy) : (e.minted token now policy).tokenHash = token.hash := rfl

theorem mint_eq (e : SessionEntry) (token : SessionToken) (now : Timestamp)
    (policy : SessionPolicy) :
    e.mint token now policy =
      let r := (e.pushed token now policy).reapGenerations now policy
      (r.1, { r.2 with
        added := some (e.minted token now policy)
        superseded := e.gens.getLast?.map fun cur => (cur.tokenHash, now) }) := rfl

/-! ## What a reap keeps -/

section
variable {e : SessionEntry} {now : Timestamp} {policy : SessionPolicy}

theorem reap_gens (h : e.retired.length ≤ policy.retiredMemory) :
    (e.reapGenerations now policy).1.gens = keepLast policy.cap (e.kept now policy) := by
  rw [reapGenerations_eq e now policy h]

theorem reap_sublist (h : e.retired.length ≤ policy.retiredMemory) :
    (e.reapGenerations now policy).1.gens.Sublist e.gens := by
  rw [reap_gens h]
  exact (keepLast_sublist ..).trans List.filter_sublist

/-- A generation is kept or dropped. -/
theorem gens_perm (e : SessionEntry) (now : Timestamp) (policy : SessionPolicy) :
    (e.dropped now policy ++ keepLast policy.cap (e.kept now policy)).Perm e.gens := by
  rw [dropped, List.append_assoc, overflow_append_keepLast, kept]
  exact List.filter_append_perm ..

/-- **No hash is lost by a reap** without being purged. -/
theorem reap_hashes (now : Timestamp) (h : e.retired.length ≤ policy.retiredMemory) :
    ((e.reapGenerations now policy).1.allHashes ++ (e.reapGenerations now policy).2.purged).Perm
      e.allHashes := by
  have hg := (gens_perm e now policy).map (·.tokenHash)
  have ho := overflow_append_keepLast policy.retiredMemory
    (e.retired ++ (e.dropped now policy).map (·.key))
  rw [reapGenerations_eq e now policy h]
  simp only [allHashes]
  set mem := e.retired ++ (e.dropped now policy).map (·.key)
  have hm : (mem.map (·.1)) = e.retired.map (·.1) ++ (e.dropped now policy).map (·.tokenHash) := by
    simp [mem, Generation.key, Function.comp_def]
  have hk : ((keepLast policy.retiredMemory mem).map (·.1) ++
      (overflow policy.retiredMemory mem).map (·.1)).Perm (mem.map (·.1)) := by
    rw [← List.map_append]
    exact (List.perm_append_comm.trans (by rw [ho])).map _
  rw [hm] at hk
  rw [List.perm_iff_count] at hg hk ⊢
  intro a
  have hg := hg a
  have hk := hk a
  simp only [List.map_append, List.count_append] at hg hk ⊢
  omega

theorem reap_retired_le (h : e.retired.length ≤ policy.retiredMemory) :
    (e.reapGenerations now policy).1.retired.length ≤ policy.retiredMemory := by
  rw [reapGenerations_eq e now policy h]
  exact length_keepLast_le ..

theorem reap_length_le (h : e.retired.length ≤ policy.retiredMemory) :
    (e.reapGenerations now policy).1.gens.length ≤ policy.cap := by
  rw [reap_gens h]
  exact length_keepLast_le ..

/-- A reap leaves the current generation last. -/
theorem reap_concat (h : e.retired.length ≤ policy.retiredMemory) {gs : List Generation}
    {g : Generation} (hg : e.gens = gs ++ [g]) (hc : g.genNo = e.currentGen) :
    (e.reapGenerations now policy).1.gens =
      keepLast (policy.cap - 1) (gs.filter fun g => !e.lapsed now policy g) ++ [g] := by
  have hl : e.lapsed now policy g = false := by simp [lapsed, hc]
  rw [reap_gens h, kept, hg, List.filter_append, List.filter_singleton]
  simp only [hl, Bool.not_false, cond_true]
  exact keepLast_concat policy.cap_pos _ _

end

/-! ## Refreshing -/

/-- The entry of a killed session. -/
def killed (e : SessionEntry) (now : Timestamp) : SessionEntry :=
  { e with status := .tombstoned, tombstonedAt := some now, currentToken := none }

/-- **What a successful refresh does**: it coalesces onto the plaintext it still
    holds, or mints; either way it slides. -/
theorem refresh_cases {e e' : SessionEntry} {hash : TokenHash} {token : SessionToken}
    {now : Timestamp} {policy : SessionPolicy} {cookies : IssuedCookies} {effects : IndexEffects}
    (h : e.refresh hash token now policy = .ok (e', cookies, effects)) :
    (e.classify hash now policy).refreshable ∧
    ((∃ current, e.currentToken = some current ∧
        now.since e.current.createdAt < policy.coalesceSecs ∧
        e' = e.slide now policy ∧ effects = {} ∧ cookies = ⟨current, e'.sessionMeta, false⟩) ∨
      ((e.currentToken = none ∨ policy.coalesceSecs ≤ now.since e.current.createdAt) ∧
        e' = (e.mint token now policy).1.slide now policy ∧
        effects = (e.mint token now policy).2 ∧ cookies = ⟨token, e'.sessionMeta, true⟩)) := by
  unfold refresh at h
  have usable : (e.classify hash now policy).refreshable := by
    cases hc : e.classify hash now policy <;> simp only [hc] at h <;> first | rfl | cases h
  refine ⟨usable, ?_⟩
  by_cases hw : now.since e.current.createdAt < policy.coalesceSecs
  · cases ht : e.currentToken with
    | none =>
      right
      cases hc : e.classify hash now policy <;> simp only [hc, hw, ht] at h <;> cases h <;> simp
    | some current =>
      left
      cases hc : e.classify hash now policy <;> simp only [hc, hw, ht] at h <;> cases h <;>
        exact ⟨current, rfl, hw, rfl, rfl, rfl⟩
  · right
    cases hc : e.classify hash now policy <;> simp only [hc, hw] at h <;> cases h <;>
      simp [not_lt.1 hw]

/-- A usable hash refreshes. -/
theorem refresh_ok {e : SessionEntry} {hash : TokenHash} (token : SessionToken)
    {now : Timestamp} {policy : SessionPolicy}
    (h : (e.classify hash now policy).refreshable) :
    ∃ r, e.refresh hash token now policy = .ok r := by
  unfold refresh
  cases hc : e.classify hash now policy <;> rw [hc] at h
  case active | staleRefreshable => simp only; split <;> exact ⟨_, rfl⟩
  all_goals cases h

/-- A refresh with `hash` at `now` would mint. -/
def Rotates (e : SessionEntry) (hash : TokenHash) (now : Timestamp) (policy : SessionPolicy) :
    Prop :=
  (e.classify hash now policy).refreshable = true ∧
    (e.currentToken = none ∨ policy.coalesceSecs ≤ now.since e.current.createdAt)

theorem refresh_of_rotates {e : SessionEntry} {hash : TokenHash} (token : SessionToken)
    {now : Timestamp} {policy : SessionPolicy} (h : e.Rotates hash now policy) :
    ∃ cookies, e.refresh hash token now policy =
      .ok ((e.mint token now policy).1.slide now policy, cookies, (e.mint token now policy).2) := by
  obtain ⟨hu, hr⟩ := h
  unfold refresh
  cases hc : e.classify hash now policy <;> rw [hc] at hu
  case active | staleRefreshable =>
    rcases hr with hr | hr
    · simp [hr]
    · simp [not_lt.2 hr]
  all_goals cases hu

/-- Only the last generation is ever superseded. -/
theorem refresh_superseded {e e' : SessionEntry} {hash : TokenHash} {token : SessionToken}
    {now : Timestamp} {policy : SessionPolicy} {cookies : IssuedCookies} {effects : IndexEffects}
    (h : e.refresh hash token now policy = .ok (e', cookies, effects)) :
    ∀ p ∈ effects.superseded, p.1 ∈ e.allHashes := by
  rcases (refresh_cases h).2 with ⟨-, -, -, -, rfl, -⟩ | ⟨-, -, rfl, -⟩
  · exact fun _ h => by cases h
  · intro p hp
    simp only [mint_eq, Option.mem_def, Option.map_eq_some_iff] at hp
    obtain ⟨g, hg, rfl⟩ := hp
    exact List.mem_append_left _ (List.mem_map_of_mem (List.mem_of_getLast? hg))

/-- Only the drawn token's generation is ever added. -/
theorem refresh_added_eq {e e' : SessionEntry} {hash : TokenHash} {token : SessionToken}
    {now : Timestamp} {policy : SessionPolicy} {cookies : IssuedCookies} {effects : IndexEffects}
    (h : e.refresh hash token now policy = .ok (e', cookies, effects)) :
    ∀ g ∈ effects.added, g = e.minted token now policy := by
  rcases (refresh_cases h).2 with ⟨-, -, -, -, rfl, -⟩ | ⟨-, -, rfl, -⟩
  · exact fun _ h => by cases h
  · rintro _ ⟨⟩
    rfl

theorem refresh_added {e e' : SessionEntry} {hash : TokenHash} {token : SessionToken}
    {now : Timestamp} {policy : SessionPolicy} {cookies : IssuedCookies} {effects : IndexEffects}
    (h : e.refresh hash token now policy = .ok (e', cookies, effects)) :
    ∀ g ∈ effects.added, g.tokenHash = token.hash := by
  intro g hg
  rw [refresh_added_eq h g hg]
  rfl

end SessionEntry

end SessionBroker
