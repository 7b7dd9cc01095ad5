/-
  An entry against the same one reaped earlier.

  * `Lags`: lapsed generations already retired; `Lags.classify` says that the
    verdicts agree but for what the memory has forgotten;
  * `Lags.reap_eq`: reaping at the same time makes the two one, and so does a
    mint, unless the number it gives is that of a generation still held;
  * `Lags.refresh`: what refreshes one refreshes the other.
-/
import SessionBroker.Window

namespace SessionBroker

open Bounded

namespace SessionEntry

/-! ## An entry reaped earlier -/

/-- The entry with `gone` retired and `gens` left. -/
def retiring (e : SessionEntry) (policy : SessionPolicy) (gone gens : List Generation) :
    SessionEntry :=
  { e with gens, retired := keepLast policy.retiredMemory (e.retired ++ gone.map (·.key)) }

/-- `e'` is `e` with its first generations retired, which lapsed by `now`. -/
def Lags (e : SessionEntry) (policy : SessionPolicy) (now : Timestamp) (e' : SessionEntry) : Prop :=
  ∃ gone gens, e.gens = gone ++ gens ∧ (∀ g ∈ gone, e.lapsed now policy g = true) ∧
    e' = e.retiring policy gone gens

section
variable {e e' : SessionEntry} {policy : SessionPolicy} {now t : Timestamp} {hash : TokenHash}
  {token : SessionToken}

theorem lapsed_mono (ht : now ≤ t) {g : Generation} (h : e.lapsed now policy g = true) :
    e.lapsed t policy g = true := by
  simp only [lapsed, decide_eq_true_eq] at h ⊢
  exact ⟨h.1, h.2.trans ht⟩

theorem Lags.mono (h : e.Lags policy now e') (ht : now ≤ t) : e.Lags policy t e' := by
  obtain ⟨gone, gens, hg, hl, rfl⟩ := h
  exact ⟨gone, gens, hg, fun g hx => lapsed_mono ht (hl g hx), rfl⟩

theorem Lags.refl (hm : e.retired.length ≤ policy.retiredMemory) (now : Timestamp) :
    e.Lags policy now e := by
  refine ⟨[], e.gens, rfl, fun _ hx => (List.not_mem_nil hx).elim, ?_⟩
  simp [retiring, keepLast_of_length_le hm]

/-- What is not about generations and memory is alike. -/
theorem Lags.sessionExpiry (h : e.Lags policy now e') (t : Timestamp) :
    e'.sessionExpiry t policy = e.sessionExpiry t policy := by
  obtain ⟨gone, gens, hg, hl, rfl⟩ := h
  rfl

theorem Lags.collectible (h : e.Lags policy now e') (t : Timestamp) :
    e'.collectible t policy = e.collectible t policy := by
  obtain ⟨gone, gens, hg, hl, rfl⟩ := h
  rfl

/-- The current generation has not lapsed. -/
theorem Lags.ends (h : e.Lags policy now e') (hs : e.Sound policy) :
    ∃ gone gs g, e.gens = gone ++ (gs ++ [g]) ∧ e'.gens = gs ++ [g] := by
  obtain ⟨gone, gens, hg, hl, rfl⟩ := h
  obtain ⟨gs, g, hends⟩ := hs.ends
  rcases List.eq_nil_or_concat gens with rfl | ⟨gs', g', rfl⟩
  · have hmem : g ∈ gone := by
      rw [List.append_nil] at hg
      rw [← hg, hends.gens]
      exact List.mem_append_right _ (List.mem_singleton_self g)
    have := hl g hmem
    simp [lapsed, hends.genNo] at this
  · exact ⟨gone, gs', g', by rw [hg, List.concat_eq_append], List.concat_eq_append ..⟩

theorem Lags.current (h : e.Lags policy now e') (hs : e.Sound policy) :
    e'.current = e.current := by
  obtain ⟨gone, gs, g, hg, hg'⟩ := h.ends hs
  simp [SessionEntry.current, hg, hg', List.getLast!_eq_getLast?_getD]

theorem Lags.gens_sublist (h : e.Lags policy now e') : e'.gens.Sublist e.gens := by
  obtain ⟨gone, gens, hg, -, rfl⟩ := h
  rw [hg]
  exact List.sublist_append_right ..

/-- No hash is held that was not. -/
theorem Lags.hashes (h : e.Lags policy now e') : e'.allHashes ⊆ e.allHashes := by
  obtain ⟨gone, gens, hg, -, rfl⟩ := h
  intro hash hh
  simp only [allHashes, retiring, hg, List.map_append, List.mem_append] at hh ⊢
  rcases hh with hh | hh
  · exact Or.inl (Or.inr hh)
  · obtain ⟨r, hr, rfl⟩ := List.mem_map.1 hh
    rcases List.mem_append.1 ((keepLast_sublist _ _).subset hr) with hr | hr
    · exact Or.inr (List.mem_map_of_mem hr)
    · obtain ⟨g, hmem, rfl⟩ := List.mem_map.1 hr
      exact Or.inl (Or.inl (List.mem_map_of_mem hmem))

/-! ## Verdicts -/

/-- A bounded memory agrees with the whole on what it remembers. -/
theorem find?_keepLast {n : ℕ} {rs : List (TokenHash × ℕ)} (hn : (rs.map (·.1)).Nodup) :
    (keepLast n rs).find? (fun r => r.1 = hash) = rs.find? (fun r => r.1 = hash) ∨
      (keepLast n rs).find? (fun r => r.1 = hash) = none := by
  cases hk : (keepLast n rs).find? (fun r => r.1 = hash) with
  | none => exact Or.inr rfl
  | some r =>
    left
    have hr : r ∈ rs := (keepLast_sublist _ _).subset (List.mem_of_find?_eq_some hk)
    have hh : r.1 = hash := by simpa using List.find?_some hk
    cases hf : rs.find? (fun r => r.1 = hash) with
    | none => simpa [hh] using List.find?_eq_none.1 hf r hr
    | some r' =>
      have hh' : r'.1 = hash := by simpa using List.find?_some hf
      rw [List.inj_on_of_nodup_map hn hr (List.mem_of_find?_eq_some hf) (hh.trans hh'.symm)]

/-- The verdict of a memory on a hash that no generation has. -/
def recollect (e : SessionEntry) (rs : List (TokenHash × ℕ)) (hash : TokenHash) : Resolution :=
  (rs.find? fun r => r.1 = hash).elim .unknown fun r => .retired e.sid r.2

theorem classify_of_not_mem (hx : e.sessionExpiry t policy = none)
    (hf : ∀ g ∈ e.gens, g.tokenHash ≠ hash) :
    e.classify hash t policy = e.recollect e.retired hash := by
  have hnone : e.gens.find? (fun g => g.tokenHash = hash) = none := by
    rw [List.find?_eq_none]
    intro g hg
    simpa using hf g hg
  simp only [classify, hx, hnone, recollect]
  cases e.retired.find? (fun r => r.1 = hash) <;> rfl

theorem classify_of_not_held (hx : e.sessionExpiry t policy = none) (hh : hash ∉ e.allHashes) :
    e.classify hash t policy = .unknown := by
  have hf : ∀ g ∈ e.gens, g.tokenHash ≠ hash := by
    rintro g hg rfl
    exact hh (List.mem_append_left _ (List.mem_map_of_mem hg))
  have hnone : e.retired.find? (fun r => r.1 = hash) = none := by
    rw [List.find?_eq_none]
    intro r hr hrh
    have hrh := of_decide_eq_true hrh
    exact hh (hrh ▸ List.mem_append_right _ (List.mem_map_of_mem hr))
  rw [classify_of_not_mem hx hf, recollect, hnone]
  rfl

/-- A lapsed generation is called what the memory would call it. -/
theorem classify_gone {gone gens : List Generation} (hg : e.gens = gone ++ gens)
    (hl : ∀ g ∈ gone, e.lapsed now policy g = true) (hs : e.Sound policy) (ht : now ≤ t)
    (hx : e.sessionExpiry t policy = none) (hf : ∀ g ∈ gens, g.tokenHash ≠ hash) :
    e.classify hash t policy = e.recollect (e.retired ++ gone.map (·.key)) hash := by
  have hd := List.nodup_append.1 hs.nodup
  by_cases hgone : ∃ g ∈ gone, g.tokenHash = hash
  · obtain ⟨g, hmem, rfl⟩ := hgone
    have hin : g ∈ e.gens := hg ▸ List.mem_append_left _ hmem
    have hold : e.retired.find? (fun r => r.1 = g.tokenHash) = none := by
      rw [List.find?_eq_none]
      intro r hr hrh
      exact hd.2.2 _ (List.mem_map_of_mem hin) r.1 (List.mem_map_of_mem hr)
        (of_decide_eq_true hrh).symm
    have hkey : (gone.map (·.key)).find? (fun r => r.1 = g.tokenHash) = some g.key := by
      have hn : (gone.map (·.tokenHash)).Nodup := by
        have := hd.1
        rw [hg, List.map_append] at this
        exact (List.nodup_append.1 this).1
      rw [List.find?_map, Option.map_eq_some_iff]
      exact ⟨g, (find?_generation hn).2 ⟨hmem, rfl⟩, rfl⟩
    have hlap : g.genNo ≠ e.currentGen ∧ g.resourceValidUntil policy.graceSecs ≤ now := by
      simpa [lapsed] using hl g hmem
    rw [classify_of_mem hs.gens_nodup hx hin, if_neg (not_lt.2 (hlap.2.trans ht)),
      if_neg hlap.1, recollect, List.find?_append, hold, hkey]
    rfl
  · simp only [not_exists, not_and] at hgone
    have hno : ∀ g ∈ e.gens, g.tokenHash ≠ hash := fun g hin => by
      rw [hg] at hin
      exact (List.mem_append.1 hin).elim (hgone g) (hf g)
    have hkey : (gone.map (·.key)).find? (fun r => r.1 = hash) = none := by
      rw [List.find?_eq_none]
      intro r hr
      obtain ⟨g, hmem, rfl⟩ := List.mem_map.1 hr
      simp [Generation.key, hgone g hmem]
    rw [classify_of_not_mem hx hno, recollect, recollect, List.find?_append, hkey, Option.or_none]

/-- **The verdicts agree**, or what one calls retired the other has forgotten. -/
theorem Lags.classify (h : e.Lags policy now e') (hs : e.Sound policy) (ht : now ≤ t)
    (hash : TokenHash) : e'.classify hash t policy = e.classify hash t policy ∨
      e'.classify hash t policy = .unknown ∧
        ∃ genNo, e.classify hash t policy = .retired e.sid genNo := by
  have hexp := h.sessionExpiry t
  have hsub := h.gens_sublist
  obtain ⟨gone, gens, hg, hl, rfl⟩ := h
  have hn' : ((e.retiring policy gone gens).gens.map (·.tokenHash)).Nodup :=
    hs.gens_nodup.sublist (hsub.map _)
  cases hx : e.sessionExpiry t policy with
  | some reason =>
    left
    simp only [SessionEntry.classify, hexp, hx]
    rfl
  | none =>
    rw [hx] at hexp
    by_cases hf : ∃ g ∈ gens, g.tokenHash = hash
    · obtain ⟨g, hmem, rfl⟩ := hf
      left
      rw [classify_of_mem hn' hexp hmem, classify_of_mem hs.gens_nodup hx (hsub.subset hmem)]
      rfl
    · simp only [not_exists, not_and] at hf
      have hkeys : ((e.retired ++ gone.map (·.key)).map (·.1)).Nodup := by
        have hd := hs.nodup
        rw [allHashes, hg, List.map_append] at hd
        have hperm : (gone.map (·.tokenHash) ++ e.retired.map (·.1)).Perm
            ((e.retired ++ gone.map (·.key)).map (·.1)) := by
          simp only [List.map_append, List.map_map]
          exact List.perm_append_comm
        exact hperm.nodup_iff.1 (hd.sublist ((List.sublist_append_left ..).append_right _))
      rw [classify_gone hg hl hs ht hx hf, classify_of_not_mem hexp hf]
      simp only [recollect, retiring]
      rcases find?_keepLast (n := policy.retiredMemory) hkeys with hk | hk
      · left
        rw [hk]
      · rw [hk]
        cases (e.retired ++ gone.map (·.key)).find? (fun r => r.1 = hash) with
        | none => exact Or.inl rfl
        | some r => exact Or.inr ⟨rfl, r.2, rfl⟩

/-! ## Reaping and minting -/

theorem OneCurrent.of_concat {gs : List Generation} {g : Generation} (hg : e.gens = gs ++ [g])
    (h : ∀ x ∈ gs, x.genNo ≠ e.currentGen) : e.OneCurrent := by
  intro gs' g' hg' x hx
  obtain ⟨rfl, -⟩ := List.append_inj' (hg.symm.trans hg') rfl
  exact h x hx

theorem OneCurrent.congr (h : e.OneCurrent) (hg : e'.gens = e.gens)
    (hc : e'.currentGen = e.currentGen) : e'.OneCurrent := by
  intro gs g hgs x hx
  rw [hc]
  exact h gs g (hg.symm.trans hgs) x hx

theorem OneCurrent.lags (h : e.OneCurrent) (hl : e.Lags policy now e') : e'.OneCurrent := by
  obtain ⟨gone, gens, hg, -, rfl⟩ := hl
  intro gs g hgs x hx
  have hgs : gens = gs ++ [g] := hgs
  refine h (gone ++ gs) g (by rw [hg, hgs, List.append_assoc]) x ?_
  exact List.mem_append_right _ hx

theorem OneCurrent.reap (h : e.OneCurrent) (hs : e.Sound policy) (now : Timestamp) :
    (e.reapGenerations now policy).1.OneCurrent := by
  obtain ⟨gs, g, hends⟩ := hs.ends
  refine .of_concat (reap_concat hs.memory hends.gens hends.genNo) fun x hx => ?_
  rw [reap_currentGen]
  refine h gs g hends.gens x ?_
  exact (List.filter_sublist.subset ((keepLast_sublist _ _).subset hx))

/-- **A reap retires what has lapsed**, and only that, within the cap. -/
theorem Lags.reaped (hs : e'.Sound policy) (hc : Chronicle policy t e'.gens)
    (hone : e'.OneCurrent) (hcap : e'.gens.length ≤ policy.cap) (h : e.Lags policy t e') :
    e.Lags policy t (e'.reapGenerations t policy).1 := by
  have hp := lapsed_first hs hc hone
  have hdrop := filter_eq_drop hp
  have htake := filter_not_eq_take hp
  simp only [Bool.not_not] at hdrop htake
  have hsplit : e'.gens = e'.gens.filter (e'.lapsed t policy) ++ e'.kept t policy := by
    rw [kept, hdrop, htake, List.take_append_drop]
  have hkept : (e'.kept t policy).length ≤ policy.cap :=
    (List.length_filter_le _ _).trans hcap
  have hdropped : e'.dropped t policy = e'.gens.filter (e'.lapsed t policy) := by
    rw [dropped, overflow_of_length_le hkept, List.append_nil]
  have heq := reapGenerations_eq e' t policy hs.memory
  rw [hdropped, keepLast_of_length_le hkept] at heq
  rw [heq]
  obtain ⟨gone, gens, hg, hl, rfl⟩ := h
  have hsame : (e.retiring policy gone gens).lapsed t policy = e.lapsed t policy := rfl
  refine ⟨gone ++ gens.filter (e.lapsed t policy), gens.filter fun g => !e.lapsed t policy g,
    ?_, fun g hx => ?_, ?_⟩
  · rw [hg, List.append_assoc]
    exact congrArg (gone ++ ·) hsplit
  · rcases List.mem_append.1 hx with hx | hx
    · exact hl g hx
    · exact (List.mem_filter.1 hx).2
  · simp only [retiring, kept, keepLast_append, List.append_assoc, List.map_append]
    rfl

/-- **Reaping at the same time makes them one.** -/
theorem Lags.reap_eq (h : e.Lags policy t e') (hm : e.retired.length ≤ policy.retiredMemory) :
    (e'.reapGenerations t policy).1 = (e.reapGenerations t policy).1 := by
  obtain ⟨gone, gens, hg, hl, rfl⟩ := h
  have hsame : (e.retiring policy gone gens).lapsed t policy = e.lapsed t policy := rfl
  have hkept : (e.retiring policy gone gens).kept t policy = e.kept t policy := by
    have hnil : gone.filter (fun g => !e.lapsed t policy g) = [] := by
      rw [List.filter_eq_nil_iff]
      intro g hx
      simp [hl g hx]
    rw [kept, kept, hsame, hg, List.filter_append, hnil]
    rfl
  have hdropped : e.dropped t policy = gone ++ (e.retiring policy gone gens).dropped t policy := by
    have hall : gone.filter (e.lapsed t policy) = gone := List.filter_eq_self.2 hl
    rw [dropped, dropped, hkept, hsame, hg, List.filter_append, hall, List.append_assoc]
    rfl
  have hretired : keepLast policy.retiredMemory (e.retired ++ (e.dropped t policy).map (·.key)) =
      keepLast policy.retiredMemory ((e.retiring policy gone gens).retired ++
        ((e.retiring policy gone gens).dropped t policy).map (·.key)) := by
    rw [hdropped, List.map_append, ← List.append_assoc, ← keepLast_append]
    rfl
  rw [reapGenerations_eq e t policy hm, hretired,
    reapGenerations_eq (e.retiring policy gone gens) t policy (length_keepLast_le ..), hkept]
  rfl

/-- A reap that finds nothing to drop. -/
theorem reap_settled (hm : e.retired.length ≤ policy.retiredMemory)
    (hl : ∀ g ∈ e.gens, e.lapsed now policy g = false) (hcap : e.gens.length ≤ policy.cap) :
    (e.reapGenerations now policy).1 = e := by
  have hkept : e.kept now policy = e.gens := by
    rw [kept, List.filter_eq_self]
    intro g hg
    simp [hl g hg]
  have hdropped : e.dropped now policy = [] := by
    rw [dropped, hkept, overflow_of_length_le hcap, List.append_nil, List.filter_eq_nil_iff]
    intro g hg
    simp [hl g hg]
  rw [reapGenerations_eq e now policy hm, hkept, hdropped, keepLast_of_length_le hcap,
    List.map_nil, List.append_nil, keepLast_of_length_le hm]

/-- Reaping twice at one time is reaping once. -/
theorem reap_reap (hm : e.retired.length ≤ policy.retiredMemory) (now : Timestamp) :
    ((e.reapGenerations now policy).1.reapGenerations now policy).1 =
      (e.reapGenerations now policy).1 := by
  refine reap_settled (reap_retired_le hm) (fun g hg => ?_) (reap_length_le hm)
  rw [reap_gens hm] at hg
  have hkept := (List.mem_filter.1 ((keepLast_sublist _ _).subset hg)).2
  simpa only [lapsed, reap_currentGen, Bool.not_eq_true'] using hkept

/-- A mint retires what had lapsed, whoever retired it before. -/
theorem Lags.pushed (h : e.Lags policy t e') (hs : e.Sound policy)
    (hnum : ∀ g ∈ e.gens, g.genNo ≠ (e.currentGen + 1) % 2 ^ 32) :
    (e.pushed token t policy).Lags policy t (e'.pushed token t policy) := by
  obtain ⟨gone, gs, g, hg, hg'⟩ := h.ends hs
  obtain ⟨gone', gens, hgens, hl, rfl⟩ := h
  have hg' : gens = gs ++ [g] := hg'
  subst hg'
  obtain rfl : gone' = gone := List.append_cancel_right (hgens.symm.trans hg)
  refine ⟨gone', gs ++ [{ g with supersededAt := some t }] ++ [e.minted token t policy], ?_, ?_, ?_⟩
  · simp only [SessionEntry.pushed, hg, ← List.append_assoc, supersedeLast_append]
  · intro x hx
    have hlap : x.genNo ≠ e.currentGen ∧ x.resourceValidUntil policy.graceSecs ≤ t := by
      simpa [lapsed] using hl x hx
    simp only [lapsed, decide_eq_true_eq]
    exact ⟨hnum x (hgens ▸ List.mem_append_left _ hx), hlap.2⟩
  · simp only [SessionEntry.pushed, retiring, supersedeLast_append]
    rfl

theorem Lags.slide (h : e.Lags policy now e') (t : Timestamp) :
    (e.slide t policy).Lags policy now (e'.slide t policy) := by
  obtain ⟨gone, gens, hg, hl, rfl⟩ := h
  exact ⟨gone, gens, hg, hl, rfl⟩

theorem Lags.sessionMeta (h : e.Lags policy now e') (hs : e.Sound policy) :
    e'.sessionMeta = e.sessionMeta := by
  have hcur := h.current hs
  obtain ⟨gone, gens, -, -, rfl⟩ := h
  simp only [SessionEntry.sessionMeta, hcur]
  rfl

theorem mint_current (hm : e.retired.length ≤ policy.retiredMemory) :
    (e.mint token t policy).1.current = e.minted token t policy := by
  have hgens := @reap_concat (e.pushed token t policy) t policy hm _ _ rfl rfl
  simp [SessionEntry.current, mint_eq, hgens, List.getLast!_eq_getLast?_getD]

theorem Lags.mint_meta (h : e.Lags policy now e') (hs : e.Sound policy) (hs' : e'.Sound policy) :
    ((e'.mint token t policy).1.slide t policy).sessionMeta =
      ((e.mint token t policy).1.slide t policy).sessionMeta := by
  have hcur : ∀ {e : SessionEntry}, e.Sound policy →
      ((e.mint token t policy).1.slide t policy).current = e.minted token t policy :=
    fun hs => mint_current hs.memory
  obtain ⟨gone, gens, -, -, rfl⟩ := h
  simp only [SessionEntry.sessionMeta, hcur hs, hcur hs']
  simp [SessionEntry.slide, mint_eq, SessionEntry.pushed, minted, retiring]

/-- A mint of this hash would not reuse the number of a generation still held. -/
def NumberFree (e : SessionEntry) (hash : TokenHash) (now : Timestamp) (policy : SessionPolicy) :
    Prop :=
  e.Rotates hash now policy → ∀ g ∈ e.gens, g.genNo ≠ (e.currentGen + 1) % 2 ^ 32

instance : Decidable (e.Rotates hash now policy) := inferInstanceAs (Decidable (_ ∧ _))

instance : Decidable (e.NumberFree hash now policy) := inferInstanceAs (Decidable (_ → _))

theorem OneCurrent.refresh {e₁ : SessionEntry} {cookies : IssuedCookies} {effects : IndexEffects}
    (h : e.OneCurrent) (hs : e.Sound policy) (hf : token.hash ∉ e.allHashes)
    (hnum : e.NumberFree hash t policy)
    (hr : e.refresh hash token t policy = .ok (e₁, cookies, effects)) : e₁.OneCurrent := by
  obtain ⟨husable, ⟨_, _, _, rfl, -⟩ | ⟨hrot, rfl, -⟩⟩ := refresh_cases hr
  · exact h.congr rfl rfl
  · have hpushed : (e.pushed token t policy).OneCurrent := by
      refine .of_concat rfl fun x hx => ?_
      have hno : x.genNo ∈ e.gens.map (·.genNo) := by
        rw [← map_genNo_supersedeLast t]
        exact List.mem_map_of_mem hx
      obtain ⟨g, hg, hgx⟩ := List.mem_map.1 hno
      rw [← hgx]
      exact hnum ⟨husable, hrot⟩ g hg
    exact (hpushed.reap (hs.pushed t hf) t).congr rfl rfl

theorem refresh_eq_mint (token : SessionToken) (h : e.Rotates hash t policy) :
    e.refresh hash token t policy = .ok ((e.mint token t policy).1.slide t policy,
      ⟨token, ((e.mint token t policy).1.slide t policy).sessionMeta, true⟩,
      (e.mint token t policy).2) := by
  obtain ⟨cookies, hr⟩ := refresh_of_rotates token h
  obtain ⟨-, ⟨current, hct, hw, -⟩ | ⟨-, -, -, hc⟩⟩ := refresh_cases hr
  · rcases h.2 with hno | hlate
    · rw [hct] at hno
      cases hno
    · exact absurd hw (not_lt.2 hlate)
  · rw [hr, hc]

theorem refresh_eq_slide (token : SessionToken)
    (hu : (e.classify hash t policy).refreshable = true) (h : ¬ e.Rotates hash t policy) :
    ∃ current, e.currentToken = some current ∧ e.refresh hash token t policy =
      .ok (e.slide t policy, ⟨current, (e.slide t policy).sessionMeta, false⟩, {}) := by
  obtain ⟨⟨e₁, cookies, effects⟩, hr⟩ := refresh_ok token hu
  obtain ⟨-, ⟨current, hct, -, rfl, rfl, rfl⟩ | ⟨hrot, -⟩⟩ := refresh_cases hr
  · exact ⟨current, hct, hr⟩
  · exact absurd ⟨hu, hrot⟩ h

/-- **A refresh succeeds on both or on neither**, with the same cookies; and a
    mint makes them one. -/
theorem Lags.refresh {e₁ : SessionEntry} {cookies : IssuedCookies} {effects : IndexEffects}
    (h : e.Lags policy now e') (hs : e.Sound policy) (hs' : e'.Sound policy) (ht : now ≤ t)
    (hr : e.refresh hash token t policy = .ok (e₁, cookies, effects)) :
    ∃ e₁' effects', e'.refresh hash token t policy = .ok (e₁', cookies, effects') ∧
      (e.NumberFree hash t policy → e₁.Lags policy t e₁') := by
  have husable := (refresh_cases hr).1
  have husable' : (e'.classify hash t policy).refreshable = true := by
    rcases h.classify hs ht hash with hc | ⟨-, genNo, hc⟩
    · rwa [hc]
    · rw [hc] at husable
      cases husable
  have htok : e'.currentToken = e.currentToken := by
    obtain ⟨gone, gens, -, -, rfl⟩ := h
    rfl
  have hiff : e'.Rotates hash t policy ↔ e.Rotates hash t policy := by
    rw [Rotates, Rotates, husable, husable', htok, h.current hs]
  by_cases hrot : e.Rotates hash t policy
  · rw [refresh_eq_mint token hrot] at hr
    cases hr
    have hr' := refresh_eq_mint token (hiff.2 hrot)
    rw [h.mint_meta hs hs'] at hr'
    refine ⟨_, _, hr', fun hnum => ?_⟩
    have heq : (e'.mint token t policy).1 = (e.mint token t policy).1 :=
      ((h.mono ht).pushed hs (hnum hrot)).reap_eq hs.memory
    have hm : (e.mint token t policy).1.retired.length ≤ policy.retiredMemory :=
      reap_retired_le (e := e.pushed token t policy) hs.memory
    rw [heq]
    exact Lags.refl (e := (e.mint token t policy).1.slide t policy) hm t
  · obtain ⟨current, hct, heq⟩ := refresh_eq_slide token husable hrot
    obtain ⟨current', hct', heq'⟩ := refresh_eq_slide token husable' fun hx => hrot (hiff.1 hx)
    rw [heq] at hr
    cases hr
    rw [htok, hct] at hct'
    cases hct'
    rw [(h.slide t).sessionMeta hs.slide] at heq'
    exact ⟨_, _, heq', fun _ => (h.slide t).mono ht⟩

@[simp] theorem reap_collectible (e : SessionEntry) (now t : Timestamp) (policy : SessionPolicy) :
    (e.reapGenerations now policy).1.collectible t policy = e.collectible t policy := by
  simp [SessionEntry.collectible, SessionEntry.sessionExpiry]

theorem Lags.killed (h : e.Lags policy now e') (t : Timestamp) :
    (e.killed t).Lags policy now (e'.killed t) := by
  obtain ⟨gone, gens, hg, hl, rfl⟩ := h
  exact ⟨gone, gens, hg, hl, rfl⟩

theorem Lags.touch (h : e.Lags policy now e') (custodyStatus : CustodyStatus) :
    SessionEntry.Lags { e with custodyStatus } policy now { e' with custodyStatus } := by
  obtain ⟨gone, gens, hg, hl, rfl⟩ := h
  exact ⟨gone, gens, hg, hl, rfl⟩

theorem Lags.frame (h : e.Lags policy now e') :
    e'.custody = e.custody ∧ e'.status = e.status := by
  obtain ⟨gone, gens, -, -, rfl⟩ := h
  exact ⟨rfl, rfl⟩

/-- What a sweep makes of an entry it visits. -/
def swept (e : SessionEntry) (now : Timestamp) (policy : SessionPolicy) : Option SessionEntry :=
  if e.collectible now policy then none else some (e.reapGenerations now policy).1

end

end SessionEntry

end SessionBroker
