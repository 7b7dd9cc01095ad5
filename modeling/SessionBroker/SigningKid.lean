/-
  There is a key to sign with.

  * `Lively`: once some key is live, from then on some key is, as the table
    stands: a key that ends has a successor that has activated by then;
  * the moves of the issuer keep a live key, and so does whatever the broker
    holds in memory, however old;
  * `signing_kid_iff`: from the boot on there is always a key that signs iff
    the boot found an empty table, or a live key in it.
-/
import SessionBroker.Lifecycle

namespace SessionBroker

open Relation Runs SigningKeyRecord Latest

/-- Some key could sign at `t`. -/
def Lively (keys : List SigningKeyRecord) (t : Timestamp) : Prop := ∃ k ∈ keys, k.Live t

section
variable {env : IssuerEnv} {keys keys' : List SigningKeyRecord} {now t t' : Timestamp}
  {ok : ℕ → Prop}

/-- **A table with a live key has one from then on.** -/
theorem Lively.later (hk64 : asI64 env.policy.keepSecs = env.policy.keepSecs)
    (hd : Dated env t keys) (ht : t ≤ t') (h : Lively keys t) : Lively keys t' := by
  -- the newest key that has activated by `t'` and did not end before `t`
  have hex : ∃ r ∈ keys.zipIdx, r.1.activateAt ≤ t' ∧ ¬ r.1.Ends t := by
    obtain ⟨k, hk, ha, hp⟩ := h
    obtain ⟨r, hr, rfl⟩ := mem_zipIdx_fst.2 hk
    exact ⟨r, hr, ha.trans ht, (published_iff_not_ends.1 hp).2⟩
  obtain ⟨⟨k, i⟩, hr, ⟨ha, hend⟩, hmax⟩ := exists_latest age hex
  have hki := List.mk_mem_zipIdx_iff_getElem?.1 hr
  have hk := List.mem_of_getElem? hki
  refine ⟨k, hk, ha, published_iff_not_ends.2 ⟨?_, ?_⟩⟩
  · by_contra hrem
    exact hend (hd.removed k hk hrem)
  · rintro ⟨e, he, hle⟩
    have hlt : t < e := not_le.1 fun h => hend ⟨e, he, h⟩
    obtain ⟨j, k', hk', hage, hsum, hout⟩ := hd.succeeded i k e hki he hlt
    have ha' : k'.activateAt ≤ e := by
      have := hd.activate k' (List.mem_of_getElem? hk')
      rw [← hsum, Timestamp.le_iff]
      simp only [Timestamp.plusSecs, hk64]
      omega
    refine absurd (hmax (k', j) (List.mk_mem_zipIdx_iff_getElem?.2 hk') ⟨ha'.trans hle, ?_⟩)
      (not_le.2 hage)
    rintro ⟨e', he', hle'⟩
    exact absurd ((hout e' he').trans hle') (not_le.2 hlt)

/-- **A move keeps a live key.** -/
theorem Lively.move (hk64 : asI64 env.policy.keepSecs = env.policy.keepSecs) (hi : now.IsI64)
    (h : Lively keys now) (hm : KeyMove env ok now keys keys') : Lively keys' now := by
  obtain ⟨k, hk, ha, hp⟩ := h
  obtain ⟨hr, hend⟩ := published_iff.1 hp
  cases hm with
  | create seed => cases hk
  | rotate _ lead seed hl hnew =>
    by_cases hA : now.plusSecs lead ≤ now
    · -- the new key activates at once
      refine ⟨env.newRow seed now (now.plusSecs lead), ?_, hA, published_iff.2 ⟨rfl, ?_⟩⟩
      · exact List.mem_append_right _ (List.mem_singleton_self _)
      · intro e he
        cases he
    · have hlt := not_le.1 hA
      have hR : now < env.policy.retireAt now lead := by
        rw [KeyPolicy.retireAt]
        split_ifs with hz
        · rw [hz, plusSecs_zero hi] at hlt
          exact absurd hlt (lt_irrefl _)
        · rw [Timestamp.lt_iff] at hlt ⊢
          simp only [Timestamp.plusSecs, hk64] at hlt ⊢
          omega
      obtain ⟨e, hredate, -, hdate, -⟩ :=
        redate_spec now (now.plusSecs lead) (env.policy.retireAt now lead) k
      refine ⟨_, List.mem_append_left _ (List.mem_map_of_mem hk), ?_, ?_⟩
      · rwa [redate_activateAt]
      · rw [published_iff, redate_removedAt, hredate]
        refine ⟨hr, fun e' he' => ?_⟩
        rcases hdate with hd | hd | ⟨-, hlt'⟩
        · exact hend e' (hd.symm.trans he')
        · rwa [← Option.some.inj (hd.symm.trans he')]
        · exact absurd (hlt.trans hlt') (not_lt.2 ha)
  | remove _ kid =>
    refine ⟨k, Table.mem_updateWhere.2 ⟨k, hk, if_neg fun hret => ?_⟩, ha, hp⟩
    rw [Bool.and_eq_true, retired_iff] at hret
    exact (published_iff_not_ends.1 hp).2 hret.2.2

theorem Lively.over_time (hring : env.ring.active ∈ env.ring.keys)
    (hk64 : asI64 env.policy.keepSecs = env.policy.keepSecs)
    {a b : Timestamp × List SigningKeyRecord} (hd : Dated env a.1 a.2) (h : Lively a.2 a.1)
    (hl : Later env ok a b) : Lively b.2 b.1 := by
  induction hl with
  | refl => exact h
  | tail hl hstep ih =>
    have hd' := hd.later hring hl
    obtain ⟨ht, hi, hsame | hmove⟩ := hstep
    · rw [hsame]
      exact ih.later hk64 hd' ht
    · exact (ih.later hk64 hd' ht).move hk64 hi hmove

end

/-! ## What the broker holds -/

namespace KeyService

variable {env : IssuerEnv} {s : KeyService} {t t' : Timestamp} {ok : ℕ → Prop}

/-- `signing_kid` of the running broker. -/
def signingKid (env : IssuerEnv) (s : KeyService) (t : Timestamp) : Option String :=
  s.cache.bind fun cache => env.signingKid s.db cache t

/-- The broker holds what some reload found, and there was a live key in it. -/
def Holds (env : IssuerEnv) (t : Timestamp) (cache : KeyCache) : Prop :=
  ∃ db at_, at_ ≤ t ∧ cache = env.reload db at_ ∧ Dated env at_ db.signingKey ∧
    Lively db.signingKey at_

/-- The broker serves: there is a live key in the store and in its memory. -/
structure Serving (env : IssuerEnv) (t : Timestamp) (s : KeyService) : Prop where
  dated : Dated env t s.db.signingKey
  lively : Lively s.db.signingKey t
  holds : ∃ cache, s.cache = some cache ∧ Holds env t cache

theorem Serving.mono (hk64 : asI64 env.policy.keepSecs = env.policy.keepSecs)
    (h : Serving env t s) (ht : t ≤ t') : Serving env t' s where
  dated := h.dated.mono ht
  lively := h.lively.later hk64 h.dated ht
  holds := by
    obtain ⟨cache, hc, db, at_, hle, hrest⟩ := h.holds
    exact ⟨cache, hc, db, at_, hle.trans ht, hrest⟩

/-- A broker that serves signs. -/
theorem Serving.signingKid_isSome (hk64 : asI64 env.policy.keepSecs = env.policy.keepSecs)
    (h : Serving env t s) : (s.signingKid env t).isSome := by
  obtain ⟨cache, hc, db, at_, hle, rfl, hd, hl⟩ := h.holds
  rw [signingKid, hc, Option.bind_some, IssuerEnv.signingKid, Option.isSome_map, IssuerEnv.withKeys]
  split_ifs
  · exact (signing_isSome h.dated.usable).2 h.lively
  · exact (signing_isSome hd.usable).2 (hl.later hk64 hd hle)

variable (env) in
/-- After any operation the broker holds what it held or what a reload finds. -/
theorem step_cache {cache : KeyCache} (hc : s.cache = some cache) (op : KeyServiceOp) :
    (s.step env op).cache = some cache ∨
      (s.step env op).cache = some (env.reload (s.step env op).db op.now) := by
  cases op with
  | bootstrap now seed =>
    unfold step
    dsimp only
    split
    · rename_i db cache' h
      obtain ⟨rfl, -⟩ := bootstrap_eq_some h
      exact Or.inr rfl
    · exact Or.inl hc
  | rotate now activateInSecs actorId seed =>
    unfold step
    dsimp only
    split
    · exact Or.inr (by rw [hc]; rfl)
    · exact Or.inl hc
  | command now immediate seed =>
    unfold step
    dsimp only
    split <;> exact Or.inl hc
  | pruneRetired now =>
    simp only [step, hc, Option.map_some]
    split_ifs
    · exact Or.inr rfl
    · exact Or.inl rfl
  | reload now =>
    simp only [step, hc, Option.map_some]
    exact Or.inr rfl
  | withKeys now =>
    simp only [step, hc, Option.map_some, IssuerEnv.withKeys]
    split_ifs
    · exact Or.inr rfl
    · exact Or.inl rfl

/-- **A step keeps the broker serving.** -/
theorem Serving.step (hring : env.ring.active ∈ env.ring.keys)
    (hk64 : asI64 env.policy.keepSecs = env.policy.keepSecs) {op : KeyServiceOp}
    (hi : op.now.IsI64) (h : Serving env op.now s) : Serving env op.now (s.step env op) := by
  have hlater : Later env (fun _ => True) (op.now, s.db.signingKey)
      (op.now, (s.step env op).db.signingKey) :=
    .of_moves hi (step_moves s op fun _ _ => trivial)
  have hd := h.dated.later hring hlater
  have hl := Lively.over_time hring hk64 h.dated h.lively hlater
  refine ⟨hd, hl, ?_⟩
  obtain ⟨cache, hc, hh⟩ := h.holds
  rcases step_cache env hc op with he | he
  · exact ⟨cache, he, hh⟩
  · exact ⟨_, he, _, op.now, le_rfl, rfl, hd, hl⟩

/-- The broker after a boot that creates the first key or finds a live one. -/
theorem serving_bootstrap (hring : env.ring.active ∈ env.ring.keys) (seed : Seed) (hi : t.IsI64)
    (hd : Dated env t s.db.signingKey) (h : s.db.signingKey = [] ∨ Lively s.db.signingKey t) :
    Serving env t (s.step env (.bootstrap t seed)) := by
  obtain ⟨⟨db, cache⟩, hb⟩ := Option.isSome_iff_exists.1 (bootstrap_isSome env s.db t seed)
  obtain ⟨rfl, hkeys⟩ := bootstrap_eq_some hb
  have hstep : s.step env (.bootstrap t seed) = ⟨db, some (env.reload db t)⟩ := by
    simp [KeyService.step, hb]
  have hd' : Dated env t db.signingKey := by
    have hlater : Later env (fun _ => True) (t, s.db.signingKey)
        (t, (s.step env (.bootstrap t seed)).db.signingKey) :=
      .of_moves hi (step_moves s (.bootstrap t seed) fun _ _ => trivial)
    rw [hstep] at hlater
    exact hd.later hring hlater
  have hl : Lively db.signingKey t := by
    rcases hkeys with ⟨-, hk⟩ | ⟨hne, rfl⟩
    · rw [hk]
      exact ⟨_, List.mem_singleton_self _, le_rfl, published_iff.2 ⟨rfl, fun e he => by cases he⟩⟩
    · exact h.resolve_left hne
  rw [hstep]
  exact ⟨hd', hl, _, rfl, db, t, le_rfl, rfl, hd', hl⟩

/-- Right after a boot the broker signs only with a live key. -/
theorem lively_of_bootstrap {seed : Seed} (hd : Dated env t s.db.signingKey)
    (h : ((s.step env (.bootstrap t seed)).signingKid env t).isSome) :
    s.db.signingKey = [] ∨ Lively s.db.signingKey t := by
  obtain ⟨⟨db, cache⟩, hb⟩ := Option.isSome_iff_exists.1 (bootstrap_isSome env s.db t seed)
  obtain ⟨rfl, ⟨he, -⟩ | ⟨-, rfl⟩⟩ := bootstrap_eq_some hb
  · exact Or.inl he
  · right
    have hstep : s.step env (.bootstrap t seed) = ⟨s.db, some (env.reload s.db t)⟩ := by
      simp [KeyService.step, hb]
    have hcache : env.withKeys s.db (env.reload s.db t) t = env.reload s.db t := by
      simp [IssuerEnv.withKeys]
    rw [hstep, signingKid, Option.bind_some, IssuerEnv.signingKid, hcache, Option.isSome_map] at h
    exact (signing_isSome hd.usable).1 h

/-- **There is always a key to sign with**, from a boot on and whatever the
    operator runs before and after it, iff that boot finds an empty table or a
    live key. -/
theorem signing_kid_iff (env : IssuerEnv) (hpolicy : env.policy.maxTtlSecs + 300 < 2 ^ 63)
    (hring : env.ring.active ∈ env.ring.keys) (s₀ : KeyService) (h₀ : s₀.db.signingKey = [])
    (before after : List KeyServiceOp) (boot : Timestamp) (seed : Seed)
    (h : ValidRun env.policy (fun _ => True) (before ++ .bootstrap boot seed :: after)) :
    (∀ more t, Moment (before ++ .bootstrap boot seed :: after)
        (before ++ .bootstrap boot seed :: more) t →
      ((run (KeyService.step env) s₀ (before ++ .bootstrap boot seed :: more)).signingKid env
        t).isSome) ↔
    keysAfter env s₀ before = [] ∨ ∃ k ∈ keysAfter env s₀ before, k.Live boot := by
  have hk64 := (KeyPolicy.keepSecs_exact hpolicy).2
  obtain ⟨hm, hm'⟩ := moment_before h
  have hd := dated_moment hring h₀ h hm
  have hi : boot.IsI64 := hm.isI64
  constructor
  · intro hall
    have hsome := hall [] boot hm'
    rw [run_concat] at hsome
    exact lively_of_bootstrap hd hsome
  · intro hfound more
    have hserving : ∀ t, Moment (before ++ .bootstrap boot seed :: after)
        (before ++ .bootstrap boot seed :: more) t →
        Serving env t (run (KeyService.step env) s₀ (before ++ .bootstrap boot seed :: more)) := by
      induction more using List.reverseRecOn with
      | nil =>
        intro t ht
        have hboot := serving_bootstrap hring seed hi hd hfound
        rw [run_concat]
        exact hboot.mono hk64 (ht.past (.bootstrap boot seed) (by simp))
      | append_singleton more op ih =>
        intro t ht
        obtain ⟨rest, hops⟩ := ht.isPrefix
        have hsplit : before ++ .bootstrap boot seed :: after =
            (before ++ .bootstrap boot seed :: more) ++ op :: rest := by
          rw [← hops]
          simp
        have hop : Moment (before ++ .bootstrap boot seed :: after)
            (before ++ .bootstrap boot seed :: more) op.now := by
          rw [hsplit] at h ⊢
          exact (moment_before h).1
        have hrun : run (KeyService.step env) s₀ (before ++ .bootstrap boot seed :: (more ++ [op])) =
            (run (KeyService.step env) s₀ (before ++ .bootstrap boot seed :: more)).step env op := by
          rw [← List.cons_append, ← List.append_assoc, run_concat]
        rw [hrun]
        exact ((ih op.now hop).step hring hk64 hop.isI64).mono hk64 (ht.past op (by simp))
    exact fun t ht => (hserving t ht).signingKid_isSome hk64

/-- A rotation ahead of the first boot leaves a key that is still pending; the
    boot finds a row and creates none. -/
theorem booted_without_key :
    let env : IssuerEnv := ⟨twoKids, ⟨1, [1]⟩, {}⟩
    let ops := [KeyServiceOp.command ⟨0⟩ false (flatSeed 0), .bootstrap ⟨10⟩ (flatSeed 1)]
    ValidRun env.policy (fun _ => True) ops ∧ 1 ≤ env.policy.publishLeadSecs ∧
      (run (KeyService.step env) ⟨.fresh ⟨0⟩, none⟩ ops).signingKid env ⟨10⟩ = none := by
  exact ⟨⟨by decide, by decide, fun _ _ _ _ => trivial⟩, by decide, by decide⟩

/-- With `--now` the one key there is is live when the broker boots. -/
theorem signing_kid_iff_now :
    let env : IssuerEnv := ⟨twoKids, ⟨1, [1]⟩, {}⟩
    (keysAfter env ⟨.fresh ⟨0⟩, none⟩ [.command ⟨0⟩ true (flatSeed 0)]).length = 1 ∧
      ∀ more t, Moment [.command ⟨0⟩ true (flatSeed 0), .bootstrap ⟨10⟩ (flatSeed 1)]
        (.command ⟨0⟩ true (flatSeed 0) :: .bootstrap ⟨10⟩ (flatSeed 1) :: more) t →
      ((run (KeyService.step env) ⟨.fresh ⟨0⟩, none⟩
        (.command ⟨0⟩ true (flatSeed 0) :: .bootstrap ⟨10⟩ (flatSeed 1) :: more)).signingKid
          env t).isSome := by
  intro env
  refine ⟨by decide, ?_⟩
  exact (signing_kid_iff env (by decide) (by decide) ⟨.fresh ⟨0⟩, none⟩ rfl
    [.command ⟨0⟩ true (flatSeed 0)] [] ⟨10⟩ (flatSeed 1)
    ⟨by decide, by decide, fun _ _ _ _ => trivial⟩).2
    (Or.inr ⟨_, List.mem_singleton_self _, by decide, published_iff.2 ⟨rfl, fun e he => by cases he⟩⟩)

end KeyService

end SessionBroker
