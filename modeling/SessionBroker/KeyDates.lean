/-
  The dates of the signing keys fit together.

  * `Dated`: a key with an end ahead of it has a successor, newer, published at
    least as long, from whose activation that end was computed;
  * `Ranked`: of two keys the newer one ends no earlier, unless the older one is
    over or the newer one was overtaken before it activated;
  * both hold of every table that moves of the issuer lead to, `Dated` for
    leads of any size.
-/
import SessionBroker.KeyMoves

namespace SessionBroker

open Relation Runs SigningKeyRecord

/-! ## Seeds and ages -/

section
variable {env : IssuerEnv} {now : Timestamp}

theorem usableSeed_newRow (hring : env.ring.active ∈ env.ring.keys) (seed : Seed)
    (now activateAt : Timestamp) :
    (usableSeed env.scheme env.ring (env.newRow seed now activateAt)).isSome := by
  have hlen := seed.2
  simp [usableSeed, Db.openedSeed, IssuerEnv.newRow, KeyScheme.generate, KeyRing.open, KeyRing.seal,
    hring, Option.filter, hlen]

theorem Redated.usableSeed {t : Timestamp} {k k' : SigningKeyRecord} (h : Redated t k k') :
    usableSeed env.scheme env.ring k' = usableSeed env.scheme env.ring k := by
  simp only [SessionBroker.usableSeed, Db.openedSeed, h.kid, h.publicKey, h.seedSealed]

theorem age_lt_iff {k k' : SigningKeyRecord} {i j : ℕ} : age (k, i) < age (k', j) ↔
    k.activateAt < k'.activateAt ∨ k.activateAt = k'.activateAt ∧
      (k.createdAt < k'.createdAt ∨ k.createdAt = k'.createdAt ∧ i < j) := by
  simp [age, Prod.Lex.toLex_lt_toLex]

/-- A key that activates no later is older than one inserted now. -/
theorem age_lt_newRow {k : SigningKeyRecord} {i n : ℕ} {seed : Seed} {activateAt : Timestamp}
    (hc : k.createdAt ≤ now) (ha : k.activateAt ≤ activateAt) (hi : i < n) :
    age (k, i) < age (env.newRow seed now activateAt, n) := by
  rw [age_lt_iff]
  rcases ha.lt_or_eq with ha | ha
  · exact Or.inl ha
  · refine Or.inr ⟨ha, ?_⟩
    rcases hc.lt_or_eq with hc | hc
    · exact Or.inl hc
    · exact Or.inr ⟨hc, hi⟩

/-- The rows after a rotation. -/
theorem getElem?_rotated {keys : List SigningKeyRecord} {lead : ℕ} {seed : Seed} {i : ℕ}
    {k' : SigningKeyRecord} : (env.rotated keys now lead seed)[i]? = some k' ↔
      (∃ k, keys[i]? = some k ∧
        redate now (now.plusSecs lead) (env.policy.retireAt now lead) k = k') ∨
      i = keys.length ∧ env.newRow seed now (now.plusSecs lead) = k' := by
  rw [IssuerEnv.rotated]
  rcases lt_trichotomy i keys.length with hi | rfl | hi
  · rw [List.getElem?_append_left (by simpa using hi), List.getElem?_map, Option.map_eq_some_iff]
    simp [hi.ne]
  · simp
  · rw [List.getElem?_eq_none (by simp; omega)]
    simp [hi.ne', List.getElem?_eq_none hi.le]

theorem kids_rotated (keys : List SigningKeyRecord) (now : Timestamp) (lead : ℕ) (seed : Seed) :
    (env.rotated keys now lead seed).map (·.kid) =
      keys.map (·.kid) ++ [(env.newRow seed now now).kid] := by
  rw [IssuerEnv.rotated, List.map_append, List.map_map]
  congr 1
  exact List.map_congr_left fun k _ => redate_kid ..

theorem kids_removeKid (keys : List SigningKeyRecord) (now : Timestamp) (kid : String) :
    (removeKid now kid keys).map (·.kid) = keys.map (·.kid) := by
  rw [removeKid, Table.updateWhere, List.map_map]
  refine List.map_congr_left fun k _ => ?_
  rw [Function.comp_apply]
  split_ifs <;> rfl

/-- **A move keeps the key ids apart.** -/
theorem KeyMove.kids {ok : ℕ → Prop} {keys keys' : List SigningKeyRecord}
    (h : (keys.map (·.kid)).Nodup) (hm : KeyMove env ok now keys keys') :
    (keys'.map (·.kid)).Nodup := by
  cases hm with
  | create seed => exact List.nodup_singleton _
  | rotate _ lead seed _ hnew =>
    rw [kids_rotated, ← List.concat_eq_append]
    refine List.Nodup.concat (fun hmem => ?_) h
    obtain ⟨k, hk, he⟩ := List.mem_map.1 hmem
    exact hnew k hk he
  | remove _ kid =>
    rw [kids_removeKid]
    exact h

/-- The rows after a removal. -/
theorem getElem?_removeKid {keys : List SigningKeyRecord} {kid : String} {i : ℕ}
    {k' : SigningKeyRecord} (h : (removeKid now kid keys)[i]? = some k') :
    ∃ k, keys[i]? = some k ∧ (k' = k ∨ k' = { k with removedAt := some now } ∧ k.Ends now) := by
  rw [removeKid, Table.updateWhere, List.getElem?_map, Option.map_eq_some_iff] at h
  obtain ⟨k, hk, rfl⟩ := h
  refine ⟨k, hk, ?_⟩
  split_ifs with hr
  · rw [Bool.and_eq_true, retired_iff] at hr
    exact Or.inr ⟨rfl, hr.2.2⟩
  · exact Or.inl rfl

/-- A removal leaves the other dates. -/
theorem getElem?_removeKid_dates {keys : List SigningKeyRecord} {kid : String} {i : ℕ}
    {k' : SigningKeyRecord} (h : (removeKid now kid keys)[i]? = some k') :
    ∃ k, keys[i]? = some k ∧ k'.retireAt = k.retireAt ∧ k'.activateAt = k.activateAt ∧
      k'.createdAt = k.createdAt ∧ age (k', i) = age (k, i) := by
  obtain ⟨k, hk, rfl | ⟨rfl, -⟩⟩ := getElem?_removeKid h
  · exact ⟨k', hk, rfl, rfl, rfl, rfl⟩
  · exact ⟨k, hk, rfl, rfl, rfl, rfl⟩

theorem removeKid_getElem? {keys : List SigningKeyRecord} (now : Timestamp) (kid : String) {i : ℕ}
    {k : SigningKeyRecord} (h : keys[i]? = some k) : ∃ k', (removeKid now kid keys)[i]? = some k' ∧
      k'.retireAt = k.retireAt ∧ k'.activateAt = k.activateAt ∧ age (k', i) = age (k, i) := by
  refine ⟨_, by rw [removeKid, Table.updateWhere, List.getElem?_map, h, Option.map_some], ?_⟩
  split_ifs <;> exact ⟨rfl, rfl, rfl⟩

end

/-! ## Successors -/

structure Dated (env : IssuerEnv) (now : Timestamp) (keys : List SigningKeyRecord) : Prop where
  kids : (keys.map (·.kid)).Nodup
  created : ∀ (i : ℕ) (k : SigningKeyRecord), keys[i]? = some k → k.createdAt ≤ now
  activate : ∀ k ∈ keys, k.activateAt.secs < 2 ^ 63
  removed : ∀ k ∈ keys, k.removedAt ≠ none → k.Ends now
  usable : ∀ k ∈ keys, (usableSeed env.scheme env.ring k).isSome
  succeeded : ∀ (i : ℕ) (k : SigningKeyRecord) (e : Timestamp), keys[i]? = some k →
    k.retireAt = some e → now < e →
    ∃ j k', keys[j]? = some k' ∧ age (k, i) < age (k', j) ∧
      k'.activateAt.plusSecs env.policy.keepSecs = e ∧ ∀ e', k'.retireAt = some e' → e ≤ e'

namespace Dated

variable {env : IssuerEnv} {now : Timestamp} {keys keys' : List SigningKeyRecord} {ok : ℕ → Prop}

theorem nil (env : IssuerEnv) (now : Timestamp) : Dated env now [] where
  kids := List.nodup_nil
  created := by simp
  activate := by simp
  removed := by simp
  usable := by simp
  succeeded := by simp

theorem mono {t t' : Timestamp} (h : Dated env t keys) (ht : t ≤ t') : Dated env t' keys where
  kids := h.kids
  created := fun i k hk => (h.created i k hk).trans ht
  activate := h.activate
  removed := fun k hk hr => (h.removed k hk hr).mono ht
  usable := h.usable
  succeeded := fun i k e hk he hlt => h.succeeded i k e hk he (ht.trans_lt hlt)

/-- A date still ahead after a rotation: it was there before, or the new key is
    the successor. -/
theorem rotated_succeeded (h : Dated env now keys) {lead : ℕ} {seed : Seed} {i : ℕ}
    {k : SigningKeyRecord} {e : Timestamp} (hk : keys[i]? = some k)
    (he : (redate now (now.plusSecs lead) (env.policy.retireAt now lead) k).retireAt = some e)
    (hlt : now < e) :
    ∃ j k', (env.rotated keys now lead seed)[j]? = some k' ∧
      age (redate now (now.plusSecs lead) (env.policy.retireAt now lead) k, i) < age (k', j) ∧
      k'.activateAt.plusSecs env.policy.keepSecs = e ∧ ∀ e', k'.retireAt = some e' → e ≤ e' := by
  have hi : i < keys.length := (List.getElem?_eq_some_iff.1 hk).1
  -- a removed key is over
  have hover : ∀ k ∈ keys, k.removedAt ≠ none → (∀ e', k.retireAt = some e' → e ≤ e') → False := by
    intro k hk hr hmax
    obtain ⟨e', he', hle⟩ := h.removed k hk hr
    exact absurd (hmax e' he') (not_le.2 (hle.trans_lt hlt))
  rw [redate_age]
  obtain ⟨e₀, hredate, hrem, hdate, -⟩ :=
    redate_spec now (now.plusSecs lead) (env.policy.retireAt now lead) k
  have he₀ : e₀ = some e := by
    rw [← he, hredate]
  have hr : k.removedAt = none := by
    by_contra hr
    refine hover k (List.mem_of_getElem? hk) hr fun e' he' => ?_
    rw [hrem hr, he'] at he₀
    exact (Option.some.inj he₀).ge
  obtain ⟨e₁, he₁, hle, hovertaken⟩ :=
    redate_dated now (now.plusSecs lead) (env.policy.retireAt now lead) hr
  rw [he] at he₁
  cases he₁
  -- a lead of zero would have ended the key now
  have hsum : (now.plusSecs lead).plusSecs env.policy.keepSecs = env.policy.retireAt now lead := by
    rw [KeyPolicy.retireAt] at hle ⊢
    split_ifs at hle ⊢
    · exact absurd hlt (not_lt.2 hle)
    · rfl
  by_cases hnew : env.policy.retireAt now lead = e
  · refine ⟨keys.length, env.newRow seed now (now.plusSecs lead),
      getElem?_rotated.2 (Or.inr ⟨rfl, rfl⟩), ?_, hsum.trans hnew, fun e' he' => by cases he'⟩
    exact age_lt_newRow (h.created i k hk)
      (not_lt.1 fun ha => absurd (hovertaken ha) (not_le.2 hlt)) hi
  · have hold : k.retireAt = some e := by
      rcases hdate with hd | hd | ⟨hd, -⟩
      · rw [← hd, he₀]
      · rw [he₀] at hd
        exact absurd (Option.some.inj hd).symm hnew
      · rw [he₀] at hd
        exact absurd (Option.some.inj hd) hlt.ne'
    obtain ⟨j, k', hk', hage, hactivate, hmax⟩ := h.succeeded i k e hk hold hlt
    refine ⟨j, _, getElem?_rotated.2 (Or.inl ⟨k', hk', rfl⟩), by rwa [redate_age], ?_, ?_⟩
    · obtain ⟨e', hredate', -⟩ :=
        redate_spec now (now.plusSecs lead) (env.policy.retireAt now lead) k'
      rw [hredate']
      exact hactivate
    · intro e' he'
      obtain ⟨e₂, hredate', -, hdate', -⟩ :=
        redate_spec now (now.plusSecs lead) (env.policy.retireAt now lead) k'
      have he₂ : e₂ = some e' := by
        rw [← he', hredate']
      rcases hdate' with hd | hd | ⟨-, ha⟩
      · exact hmax e' (hd.symm.trans he₂)
      · rw [he₂] at hd
        rw [Option.some.inj hd]
        exact hle
      · -- overtaken keys date from a later activation
        have hge := Timestamp.plusSecs_mono ha.le env.policy.keepSecs
        rw [hsum, hactivate] at hge
        exact absurd (le_antisymm hge hle) hnew

/-- **A move keeps the dates fitting.** -/
theorem move (hring : env.ring.active ∈ env.ring.keys) (hi : now.IsI64) (h : Dated env now keys)
    (hm : KeyMove env ok now keys keys') : Dated env now keys' := by
  have hkids := KeyMove.kids h.kids hm
  cases hm with
  | create seed =>
    refine ⟨hkids, ?_, ?_, ?_, ?_, ?_⟩
    · intro i k hk
      obtain rfl := List.mem_singleton.1 (List.mem_of_getElem? hk)
      exact le_rfl
    · intro k hk
      obtain rfl := List.mem_singleton.1 hk
      exact hi.2
    · intro k hk hr
      obtain rfl := List.mem_singleton.1 hk
      exact absurd rfl hr
    · intro k hk
      obtain rfl := List.mem_singleton.1 hk
      exact usableSeed_newRow hring seed now now
    · intro i k e hk he
      obtain rfl := List.mem_singleton.1 (List.mem_of_getElem? hk)
      cases he
  | rotate _ lead seed hl hnew =>
    refine ⟨hkids, ?_, ?_, ?_, ?_, ?_⟩
    · intro i k hk
      rcases getElem?_rotated.1 hk with ⟨k₀, hk₀, rfl⟩ | ⟨-, rfl⟩
      · obtain ⟨e, he, -⟩ := redate_spec now (now.plusSecs lead) (env.policy.retireAt now lead) k₀
        rw [he]
        exact h.created i k₀ hk₀
      · exact le_rfl
    · intro k hk
      obtain ⟨i, hi⟩ := List.mem_iff_getElem?.1 hk
      rcases getElem?_rotated.1 hi with ⟨k₀, hk₀, rfl⟩ | ⟨-, rfl⟩
      · rw [redate_activateAt]
        exact h.activate k₀ (List.mem_of_getElem? hk₀)
      · simp only [IssuerEnv.newRow, Timestamp.plusSecs]
        omega
    · intro k hk hr
      obtain ⟨i, hi⟩ := List.mem_iff_getElem?.1 hk
      rcases getElem?_rotated.1 hi with ⟨k₀, hk₀, rfl⟩ | ⟨-, rfl⟩
      · obtain ⟨e, he, hrem, -⟩ :=
          redate_spec now (now.plusSecs lead) (env.policy.retireAt now lead) k₀
        rw [redate_removedAt] at hr
        rw [he, hrem hr]
        exact h.removed k₀ (List.mem_of_getElem? hk₀) hr
      · exact absurd rfl hr
    · intro k hk
      obtain ⟨i, hi⟩ := List.mem_iff_getElem?.1 hk
      rcases getElem?_rotated.1 hi with ⟨k₀, hk₀, rfl⟩ | ⟨-, rfl⟩
      · obtain ⟨e, he, -⟩ := redate_spec now (now.plusSecs lead) (env.policy.retireAt now lead) k₀
        rw [he]
        exact h.usable k₀ (List.mem_of_getElem? hk₀)
      · exact usableSeed_newRow hring seed now _
    · intro i k e hk he hlt
      rcases getElem?_rotated.1 hk with ⟨k₀, hk₀, rfl⟩ | ⟨-, rfl⟩
      · exact h.rotated_succeeded hk₀ he hlt
      · cases he
  | remove _ kid =>
    refine ⟨hkids, ?_, ?_, ?_, ?_, ?_⟩
    · intro i k hk
      obtain ⟨k₀, hk₀, -, -, hc, -⟩ := getElem?_removeKid_dates hk
      rw [hc]
      exact h.created i k₀ hk₀
    · intro k hk
      obtain ⟨i, hi⟩ := List.mem_iff_getElem?.1 hk
      obtain ⟨k₀, hk₀, -, hactivate, -⟩ := getElem?_removeKid_dates hi
      rw [hactivate]
      exact h.activate k₀ (List.mem_of_getElem? hk₀)
    · intro k hk hr
      obtain ⟨i, hi⟩ := List.mem_iff_getElem?.1 hk
      obtain ⟨k₀, hk₀, rfl | ⟨rfl, he⟩⟩ := getElem?_removeKid hi
      · exact h.removed k (List.mem_of_getElem? hk₀) hr
      · exact he
    · intro k hk
      obtain ⟨i, hi⟩ := List.mem_iff_getElem?.1 hk
      obtain ⟨k₀, hk₀, rfl | ⟨rfl, -⟩⟩ := getElem?_removeKid hi
      · exact h.usable k (List.mem_of_getElem? hk₀)
      · exact h.usable k₀ (List.mem_of_getElem? hk₀)
    · intro i k e hk he hlt
      obtain ⟨k₀, hk₀, hret, -, -, hage⟩ := getElem?_removeKid_dates hk
      obtain ⟨j, k', hk', hlt', hactivate, hmax⟩ := h.succeeded i k₀ e hk₀ (hret ▸ he) hlt
      obtain ⟨k'', hk'', hret', hactivate', hage'⟩ := removeKid_getElem? now kid hk'
      refine ⟨j, k'', hk'', ?_, by rw [hactivate', hactivate], by rwa [hret']⟩
      rwa [hage, hage']

/-- **Over time.** -/
theorem later (hring : env.ring.active ∈ env.ring.keys) {a b : Timestamp × List SigningKeyRecord}
    (h : Dated env a.1 a.2) (hl : Later env ok a b) : Dated env b.1 b.2 := by
  induction hl with
  | refl => exact h
  | tail _ hstep ih =>
    obtain ⟨ht, hi, hsame | hmove⟩ := hstep
    · rw [hsame]
      exact ih.mono ht
    · exact (ih.mono ht).move hring hi hmove

end Dated

/-! ## Who outlives whom -/

/-- The key ended before it activated. -/
def SigningKeyRecord.Overtaken (k : SigningKeyRecord) : Prop :=
  ∃ e, k.retireAt = some e ∧ e < k.activateAt

/-- `k'` is published at least as long as `k`. -/
def SigningKeyRecord.Outlives (k' k : SigningKeyRecord) : Prop :=
  ∀ e', k'.retireAt = some e' → ∃ e, k.retireAt = some e ∧ e ≤ e'

/-- Of two keys the newer one lasts. -/
def Ranked (now : Timestamp) (keys : List SigningKeyRecord) : Prop :=
  ∀ (i j : ℕ) (k k' : SigningKeyRecord), keys[i]? = some k → keys[j]? = some k' →
    age (k, i) < age (k', j) → k'.Outlives k ∨ k.Ends now ∨ k'.Overtaken

namespace Ranked

variable {env : IssuerEnv} {now : Timestamp} {keys keys' : List SigningKeyRecord} {ok : ℕ → Prop}

theorem mono {t t' : Timestamp} (h : Ranked t keys) (ht : t ≤ t') : Ranked t' keys :=
  fun i j k k' hk hk' hlt =>
    (h i j k k' hk hk' hlt).imp_right (Or.imp_left fun he => he.mono ht)

/-- Two keys that a rotation finds. -/
theorem redate (h : Ranked now keys) (hd : Dated env now keys) {lead : ℕ}
    (hA : now ≤ now.plusSecs lead) {i j : ℕ} {k k' : SigningKeyRecord} (hk : keys[i]? = some k)
    (hk' : keys[j]? = some k') (hlt : age (k, i) < age (k', j)) :
    (k'.redate now (now.plusSecs lead) (env.policy.retireAt now lead)).Outlives
        (k.redate now (now.plusSecs lead) (env.policy.retireAt now lead)) ∨
      (k.redate now (now.plusSecs lead) (env.policy.retireAt now lead)).Ends now ∨
      (k'.redate now (now.plusSecs lead) (env.policy.retireAt now lead)).Overtaken := by
  have hends : k.Ends now →
      (k.redate now (now.plusSecs lead) (env.policy.retireAt now lead)).Ends now := by
    rintro ⟨e, he, hle⟩
    obtain ⟨e', he', hle'⟩ := redate_sooner now (now.plusSecs lead) (env.policy.retireAt now lead) he
    exact ⟨e', he', hle'.trans hle⟩
  rcases h i j k k' hk hk' hlt with hout | he | ⟨e, he, hle⟩
  · obtain ⟨e', hredate, -, hdate, -⟩ :=
      redate_spec now (now.plusSecs lead) (env.policy.retireAt now lead) k'
    have hret : (k'.redate now (now.plusSecs lead) (env.policy.retireAt now lead)).retireAt = e' := by
      rw [hredate]
    rcases hdate with rfl | rfl | ⟨rfl, ha⟩
    · refine Or.inl fun e'' he'' => ?_
      obtain ⟨e, he, hle⟩ := hout e'' (hret.symm.trans he'')
      obtain ⟨e₁, he₁, hle₁⟩ :=
        redate_sooner now (now.plusSecs lead) (env.policy.retireAt now lead) he
      exact ⟨e₁, he₁, hle₁.trans hle⟩
    · by_cases hr : k.removedAt = none
      · refine Or.inl fun e'' he'' => ?_
        rw [hret] at he''
        cases he''
        obtain ⟨e₁, he₁, hle₁, -⟩ :=
          redate_dated now (now.plusSecs lead) (env.policy.retireAt now lead) hr
        exact ⟨e₁, he₁, hle₁⟩
      · exact Or.inr (Or.inl (hends (hd.removed k (List.mem_of_getElem? hk) hr)))
    · refine Or.inr (Or.inr ⟨now, hret, ?_⟩)
      rw [redate_activateAt]
      exact hA.trans_lt ha
  · exact Or.inr (Or.inl (hends he))
  · obtain ⟨e', he', hle'⟩ := redate_sooner now (now.plusSecs lead) (env.policy.retireAt now lead) he
    refine Or.inr (Or.inr ⟨e', he', ?_⟩)
    rw [redate_activateAt]
    exact hle'.trans_lt hle

/-- A key newer than the one that a rotation adds is overtaken. -/
theorem overtaken (hd : Dated env now keys) {lead : ℕ} (hA : now ≤ now.plusSecs lead) {seed : Seed}
    {j : ℕ} {k' : SigningKeyRecord} (hk' : keys[j]? = some k')
    (hlt : age (env.newRow seed now (now.plusSecs lead), keys.length) < age (k', j)) :
    (k'.redate now (now.plusSecs lead) (env.policy.retireAt now lead)).Overtaken := by
  have ha : now.plusSecs lead < k'.activateAt := by
    by_contra hle
    exact lt_asymm hlt (age_lt_newRow (hd.created j k' hk') (not_lt.1 hle)
      (List.getElem?_eq_some_iff.1 hk').1)
  by_cases hr : k'.removedAt = none
  · obtain ⟨e, he, -, hnow⟩ :=
      redate_dated now (now.plusSecs lead) (env.policy.retireAt now lead) hr
    refine ⟨e, he, ?_⟩
    rw [redate_activateAt]
    exact (hnow ha).trans_lt (hA.trans_lt ha)
  · obtain ⟨e, he, hle⟩ := hd.removed k' (List.mem_of_getElem? hk') hr
    obtain ⟨e', he', hle'⟩ := redate_sooner now (now.plusSecs lead) (env.policy.retireAt now lead) he
    refine ⟨e', he', ?_⟩
    rw [redate_activateAt]
    exact (hle'.trans hle).trans_lt (hA.trans_lt ha)

/-- **A move keeps the ranking**, where leads are no way back in time. -/
theorem move (hf : Forward ok) (hi : now.IsI64) (hd : Dated env now keys) (h : Ranked now keys)
    (hm : KeyMove env ok now keys keys') : Ranked now keys' := by
  intro i j k k' hk hk' hlt
  cases hm with
  | create seed =>
    obtain rfl := List.mem_singleton.1 (List.mem_of_getElem? hk')
    exact Or.inl fun e he => by cases he
  | rotate _ lead seed hl hnew =>
    have hA := plusSecs_ge hi (hf lead hl)
    rcases getElem?_rotated.1 hk' with ⟨k₀', hk₀', rfl⟩ | ⟨-, rfl⟩
    · rw [redate_age] at hlt
      rcases getElem?_rotated.1 hk with ⟨k₀, hk₀, rfl⟩ | ⟨rfl, rfl⟩
      · rw [redate_age] at hlt
        exact h.redate hd hA hk₀ hk₀' hlt
      · exact Or.inr (Or.inr (overtaken hd hA hk₀' hlt))
    · exact Or.inl fun e he => by cases he
  | remove _ kid =>
    obtain ⟨k₀, hk₀, hret, -, -, hage⟩ := getElem?_removeKid_dates hk
    obtain ⟨k₀', hk₀', hret', hact', -, hage'⟩ := getElem?_removeKid_dates hk'
    rw [hage, hage'] at hlt
    have := h i j k₀ k₀' hk₀ hk₀' hlt
    simpa only [SigningKeyRecord.Outlives, SigningKeyRecord.Ends, SigningKeyRecord.Overtaken,
      hret, hret', hact'] using this

/-- **Over time.** -/
theorem later (hf : Forward ok) (hring : env.ring.active ∈ env.ring.keys)
    {a b : Timestamp × List SigningKeyRecord} (hd : Dated env a.1 a.2) (h : Ranked a.1 a.2)
    (hl : Later env ok a b) : Ranked b.1 b.2 := by
  induction hl with
  | refl => exact h
  | tail hl hstep ih =>
    have hd' := hd.later hring hl
    obtain ⟨ht, hi, hsame | hmove⟩ := hstep
    · rw [hsame]
      exact ih.mono ht
    · exact (ih.mono ht).move hf hi (hd'.mono ht) hmove

end Ranked

end SessionBroker
