/-
  Verifiers that obey the cache headers (`config.rs`, `http/wellknown.rs`).

  * `issuerTimes` are the range checks of `issuer_config`;
  * `KidKnown`: in a run, a copy of the key set that is no older than `max-age`
    holds the key of every token issued meanwhile.  Any use of the keys may be
    a fetch, and any may be an issue;
  * `verifiers_know_iff`: it holds of all runs of rotations at the default lead
    iff the lead leaves room for `max-age` and for the minute that the broker
    may hold its keys.
-/
import SessionBroker.SigningKid

namespace SessionBroker

open Relation Runs SigningKeyRecord

/-! ## The configuration -/

/-- `MAX_TOKEN_TTL_SECS`. -/
def maxTokenTtlSecs : ℕ := 31536000

/-- `MAX_PUBLISH_LEAD_SECS`. -/
def maxPublishLeadSecs : ℕ := 2592000

/-- `ConfigError::Invalid`. -/
structure ConfigInvalid where
  field : String
  message : String
deriving DecidableEq, Repr

/-- The times of an `IssuerConfig`. -/
structure IssuerTimes where
  machineTtlSecs : ℕ := 86400
  userTtlSecs : ℕ := 3600
  maxTtlSecs : ℕ := 2592000
  publishLeadSecs : ℕ := 86400
  jwksMaxAgeSecs : ℕ := 300
deriving DecidableEq, Repr

/-- One range check: an error that names its field. -/
def refuseIf (bad : Prop) [Decidable bad] (field message : String) : Except ConfigInvalid Unit :=
  if bad then .error ⟨field, message⟩ else .ok ()

/-- The range checks of `issuer_config`, in its order. -/
def issuerTimes (t : IssuerTimes) : Except ConfigInvalid IssuerTimes := do
  refuseIf (¬ (1 ≤ t.maxTtlSecs ∧ t.maxTtlSecs ≤ maxTokenTtlSecs)) "issuer_max_ttl_secs"
    s!"must be between 1 and {maxTokenTtlSecs} (got {t.maxTtlSecs})"
  refuseIf (t.machineTtlSecs = 0 ∨ t.maxTtlSecs < t.machineTtlSecs) "issuer_machine_ttl_secs"
    s!"must be between 1 and issuer_max_ttl_secs ({t.maxTtlSecs}), got {t.machineTtlSecs}"
  refuseIf (t.userTtlSecs = 0 ∨ t.maxTtlSecs < t.userTtlSecs) "issuer_user_ttl_secs"
    s!"must be between 1 and issuer_max_ttl_secs ({t.maxTtlSecs}), got {t.userTtlSecs}"
  refuseIf (¬ (1 ≤ t.publishLeadSecs ∧ t.publishLeadSecs ≤ maxPublishLeadSecs))
    "signing_key_publish_lead_secs"
    s!"must be between 1 and {maxPublishLeadSecs} (got {t.publishLeadSecs})"
  refuseIf (86400 < t.jwksMaxAgeSecs) "issuer_jwks_max_age_secs"
    s!"must be at most 86400 (got {t.jwksMaxAgeSecs})"
  return t

theorem refuseIf_bind {α : Type} {bad : Prop} [Decidable bad] {field message : String}
    {rest : Unit → Except ConfigInvalid α} {a : α} :
    (refuseIf bad field message >>= rest) = .ok a ↔ ¬ bad ∧ rest () = .ok a := by
  unfold refuseIf
  split_ifs with h
  · simp [h, bind, Except.bind]
  · simp [h, bind, Except.bind]

/-- `key_policy`. -/
def IssuerTimes.keyPolicy (t : IssuerTimes) : KeyPolicy := ⟨t.publishLeadSecs, t.maxTtlSecs⟩

/-- The configuration is accepted. -/
def IssuerTimes.Accepted (t : IssuerTimes) : Prop := issuerTimes t = .ok t

theorem IssuerTimes.accepted_iff {t : IssuerTimes} : t.Accepted ↔
    (1 ≤ t.maxTtlSecs ∧ t.maxTtlSecs ≤ 31536000) ∧
    (1 ≤ t.machineTtlSecs ∧ t.machineTtlSecs ≤ t.maxTtlSecs) ∧
    (1 ≤ t.userTtlSecs ∧ t.userTtlSecs ≤ t.maxTtlSecs) ∧
    (1 ≤ t.publishLeadSecs ∧ t.publishLeadSecs ≤ 2592000) ∧ t.jwksMaxAgeSecs ≤ 86400 := by
  unfold Accepted issuerTimes
  rw [refuseIf_bind, refuseIf_bind, refuseIf_bind, refuseIf_bind, refuseIf_bind]
  simp only [maxTokenTtlSecs, maxPublishLeadSecs, pure, Except.pure, and_true]
  omega

/-! ## Runs -/

/-- What a run may do after the boot: rotations at the default lead, reloads and
    uses of the keys. -/
def KeyServiceOp.ordinary : KeyServiceOp → Bool
  | rotate _ none _ _ | command _ false _ | reload _ | withKeys _ => true
  | _ => false

/-- The clock of the source counts from the epoch. -/
structure OrdinaryRun (policy : KeyPolicy) (boot : Timestamp) (seed : Seed)
    (ops : List KeyServiceOp) : Prop where
  valid : ValidRun policy (· = policy.publishLeadSecs) (.bootstrap boot seed :: ops)
  ordinary : ∀ op ∈ ops, op.ordinary = true
  epoch : 0 ≤ boot.secs

/-- The key ids that `/auth/jwks.json` serves. -/
def KeyService.served (env : IssuerEnv) (s : KeyService) (t : Timestamp) : List String :=
  (s.cache.toList.flatMap fun cache => env.jwks s.db cache t).map (·.1)

/-- **A copy no older than `max-age` has the key of the token**: the set fetched
    at `fetched`, after `before`, holds the key that signs at `issued`. -/
def KidKnown (env : IssuerEnv) (maxAgeSecs : ℕ) (s₀ : KeyService) (ops : List KeyServiceOp) : Prop :=
  ∀ before (fetched : Timestamp) between (issued : Timestamp) after kid,
    ops = before ++ .withKeys fetched :: (between ++ .withKeys issued :: after) →
    issued.secs ≤ fetched.secs + maxAgeSecs → issued.secs < 2 ^ 63 - 1 →
    (run (KeyService.step env) s₀ (before ++ .withKeys fetched :: between)).signingKid env issued =
      some kid →
    kid ∈ (run (KeyService.step env) s₀ before).served env fetched

/-- Verifiers that obey the cache headers know the key of every token, in every
    run under this configuration. -/
def VerifiersKnow (t : IssuerTimes) : Prop :=
  ∀ (env : IssuerEnv) (s₀ : KeyService) (boot : Timestamp) (seed : Seed) (ops : List KeyServiceOp),
    env.policy = t.keyPolicy → env.ring.active ∈ env.ring.keys → s₀.db.signingKey = [] →
    OrdinaryRun env.policy boot seed ops →
    KidKnown env t.jwksMaxAgeSecs s₀ (.bootstrap boot seed :: ops)

/-! ## What the broker holds, and since when -/

section
variable {env : IssuerEnv} {s₀ : KeyService} {ops before after more source : List KeyServiceOp}
  {cache : KeyCache} {at_ t : Timestamp} {ok : ℕ → Prop}

/-- Between two readings since the epoch nothing wraps. -/
theorem since_exact (h₀ : 0 ≤ at_.secs) (h : at_.secs ≤ t.secs) (ht : t.secs < 2 ^ 63) :
    t.since at_ = (t.secs - at_.secs).toNat := by
  have hd : Int.bmod (t.secs - at_.secs) (2 ^ 64) = t.secs - at_.secs :=
    Int.bmod_eq_of_le (by omega) (by omega)
  simp only [Timestamp.since, hd]
  rw [if_neg (by omega)]

/-- The cache is what a reload found at `at_`, after the operations `source`. -/
structure Loaded (env : IssuerEnv) (s₀ : KeyService) (ops before source : List KeyServiceOp)
    (at_ : Timestamp) (cache : KeyCache) : Prop where
  eq : cache = env.reload (run (KeyService.step env) s₀ source).db at_
  isPrefix : source <+: before
  moment : Moment ops source at_
  epoch : 0 ≤ at_.secs

theorem Loaded.le {op : KeyServiceOp}
    (h : Loaded env s₀ (before ++ op :: after) before source at_ cache) : at_ ≤ op.now := by
  obtain ⟨rest, rfl⟩ := h.isPrefix
  refine h.moment.future op ?_
  rw [List.append_assoc, List.drop_left]
  simp

/-- What a reload at an operation finds. -/
theorem loaded_here {op : KeyServiceOp} (hv : ValidRun env.policy ok (before ++ op :: after))
    (h : Loaded env s₀ (before ++ op :: after) before source at_ cache) :
    Loaded env s₀ (before ++ op :: after) (before ++ [op]) (before ++ [op]) op.now
      (env.reload (run (KeyService.step env) s₀ (before ++ [op])).db op.now) := by
  have hle := h.le
  rw [Timestamp.le_iff] at hle
  exact ⟨rfl, List.prefix_rfl, (moment_before hv).2, h.epoch.trans hle⟩

/-- Over one operation. -/
theorem Loaded.step {op : KeyServiceOp} (hv : ValidRun env.policy ok (before ++ op :: after))
    (hc : (run (KeyService.step env) s₀ before).cache = some cache)
    (h : Loaded env s₀ (before ++ op :: after) before source at_ cache) :
    ∃ source' at_' cache',
      (run (KeyService.step env) s₀ (before ++ [op])).cache = some cache' ∧
      Loaded env s₀ (before ++ op :: after) (before ++ [op]) source' at_' cache' ∧
      source <+: source' ∧ at_ ≤ at_' := by
  rw [run_concat]
  rcases KeyService.step_cache env hc op with he | he
  · exact ⟨source, at_, cache, he,
      ⟨h.eq, h.isPrefix.trans (List.prefix_append _ _), h.moment, h.epoch⟩, List.prefix_rfl, le_rfl⟩
  · refine ⟨before ++ [op], op.now, _, he, ?_, h.isPrefix.trans (List.prefix_append _ _), h.le⟩
    have := loaded_here hv h
    rwa [run_concat] at this

/-- Over many. -/
theorem Loaded.steps (hv : ValidRun env.policy ok (before ++ (more ++ after)))
    (hc : (run (KeyService.step env) s₀ before).cache = some cache)
    (h : Loaded env s₀ (before ++ (more ++ after)) before source at_ cache) :
    ∃ source' at_' cache',
      (run (KeyService.step env) s₀ (before ++ more)).cache = some cache' ∧
      Loaded env s₀ (before ++ (more ++ after)) (before ++ more) source' at_' cache' ∧
      source <+: source' ∧ at_ ≤ at_' := by
  induction more generalizing before source at_ cache with
  | nil =>
    rw [List.append_nil]
    exact ⟨source, at_, cache, hc, h, List.prefix_rfl, le_rfl⟩
  | cons op more ih =>
    rw [List.cons_append] at hv h ⊢
    have hsplit : before ++ op :: (more ++ after) = (before ++ [op]) ++ (more ++ after) := by simp
    have hsplit' : before ++ op :: more = (before ++ [op]) ++ more := by simp
    obtain ⟨source₁, at₁, cache₁, hc₁, h₁, hs₁, ha₁⟩ := Loaded.step hv hc h
    rw [hsplit] at h₁ hv ⊢
    obtain ⟨source₂, at₂, cache₂, hc₂, h₂, hs₂, ha₂⟩ := ih hv hc₁ h₁
    rw [hsplit']
    exact ⟨source₂, at₂, cache₂, hc₂, h₂, hs₁.trans hs₂, ha₁.trans ha₂⟩

/-- **What a use of the keys sees** is at most 59 seconds old, and stays in
    memory. -/
theorem Loaded.use (hv : ValidRun env.policy ok (before ++ .withKeys t :: after))
    (hc : (run (KeyService.step env) s₀ before).cache = some cache)
    (h : Loaded env s₀ (before ++ .withKeys t :: after) before source at_ cache) :
    ∃ source' at_' cache', env.withKeys (run (KeyService.step env) s₀ before).db cache t = cache' ∧
      (run (KeyService.step env) s₀ (before ++ [.withKeys t])).cache = some cache' ∧
      Loaded env s₀ (before ++ .withKeys t :: after) (before ++ [.withKeys t]) source' at_' cache' ∧
      source <+: source' ∧ at_ ≤ at_' ∧ at_' ≤ t ∧ t.secs ≤ at_'.secs + 59 := by
  have hstep : (run (KeyService.step env) s₀ (before ++ [.withKeys t])).cache =
      some (env.withKeys (run (KeyService.step env) s₀ before).db cache t) := by
    rw [run_concat]
    simp [KeyService.step, hc]
  have hle : at_ ≤ t := h.le
  have hloaded : cache.loadedAt = some at_ := by
    rw [h.eq]
    rfl
  rw [hstep]
  rw [Timestamp.le_iff] at hle
  by_cases hold : reloadIntervalSecs ≤ t.since at_
  · have hw : env.withKeys (run (KeyService.step env) s₀ before).db cache t =
        env.reload (run (KeyService.step env) s₀ before).db t := by
      simp [IssuerEnv.withKeys, hloaded, hold]
    refine ⟨before, t, _, rfl, rfl, ?_, h.isPrefix, hle, le_rfl, by omega⟩
    rw [hw]
    exact ⟨rfl, List.prefix_append _ _, (moment_before hv).1, h.epoch.trans hle⟩
  · have hw : env.withKeys (run (KeyService.step env) s₀ before).db cache t = cache := by
      simp [IssuerEnv.withKeys, hloaded, hold]
    refine ⟨source, at_, _, rfl, rfl, ?_, List.prefix_rfl, le_rfl, hle, ?_⟩
    · rw [hw]
      exact ⟨h.eq, h.isPrefix.trans (List.prefix_append _ _), h.moment, h.epoch⟩
    · rw [since_exact h.epoch hle (hv.isI64 (.withKeys t) (by simp)).2, reloadIntervalSecs] at hold
      omega

/-! ## A key the copy does not have -/

/-- A key added since was created since, and activates a lead after that. -/
theorem Later.new_row {lead : ℕ} {a b : Timestamp × List SigningKeyRecord}
    (hl : Later env (· = lead) a b) (hne : a.2 ≠ []) : b.2 ≠ [] ∧
      ∀ {i : ℕ} {k : SigningKeyRecord}, b.2[i]? = some k → a.2[i]? = none →
        a.1 ≤ k.createdAt ∧ k.activateAt = k.createdAt.plusSecs lead := by
  induction hl with
  | refl => exact ⟨hne, fun hk hno => by rw [hno] at hk; cases hk⟩
  | @tail b c hl hstep ih =>
    obtain ⟨hneb, hrows⟩ := ih
    have hale := Later.le hl
    obtain ⟨hle, -, hsame | hmove⟩ := hstep
    · rw [hsame]
      exact ⟨hneb, hrows⟩
    · obtain ⟨tb, keys⟩ := b
      obtain ⟨now, keys'⟩ := c
      dsimp only at hmove hle hneb hrows hale ⊢
      cases hmove with
      | create seed => exact absurd rfl hneb
      | rotate _ lead' seed hlead hnew =>
        refine ⟨by simp [IssuerEnv.rotated], fun {i k} hk hno => ?_⟩
        rcases getElem?_rotated.1 hk with ⟨k₀, hk₀, rfl⟩ | ⟨-, rfl⟩
        · obtain ⟨e, he, -⟩ :=
            redate_spec now (now.plusSecs lead') (env.policy.retireAt now lead') k₀
          rw [he]
          exact hrows (k := k₀) hk₀ hno
        · rw [hlead]
          exact ⟨hale.trans hle, rfl⟩
      | remove _ kid =>
        refine ⟨fun he => hneb (List.map_eq_nil_iff.1 he), fun hk hno => ?_⟩
        obtain ⟨k₀, hk₀, rfl | ⟨rfl, -⟩⟩ := getElem?_removeKid hk
        · exact hrows hk₀ hno
        · exact hrows (k := k₀) hk₀ hno

/-- What a copy serves. -/
theorem mem_served {s : KeyService} {db : Db} {kid : String} (hc : s.cache = some cache)
    (hw : env.withKeys s.db cache t = env.reload db at_) :
    kid ∈ s.served env t ↔ ∃ k ∈ db.signingKey, k.Published t ∧ k.kid = kid := by
  rw [KeyService.served, hc, Option.toList_some, List.flatMap_singleton, IssuerEnv.jwks, hw,
    List.map_map, List.mem_map]
  simp only [IssuerEnv.reload, mem_published_freshCache, Function.comp_apply, and_assoc]

/-- A key of an earlier table that signs later was published earlier. -/
theorem Redated.published {k₀ k : SigningKeyRecord} {u : Timestamp} (h : Redated u k₀ k) {t' : Timestamp}
    (hp : k.Published t') (ht : t ≤ t') : k₀.Published t := by
  obtain ⟨hr, hend⟩ := published_iff.1 hp
  refine published_iff.2 ⟨?_, fun e he => ?_⟩
  · by_contra hr₀
    rw [(h.removed hr₀).1] at hr
    exact hr₀ hr
  · obtain ⟨e', he', hle⟩ := h.sooner e he
    exact (ht.trans_lt (hend e' he')).trans_le hle

/-- The boot reads the key it has created. -/
theorem loaded_boot {boot : Timestamp} {seed : Seed} {rest : List KeyServiceOp}
    (hv : ValidRun env.policy ok (.bootstrap boot seed :: rest)) (h₀ : s₀.db.signingKey = [])
    (hepoch : 0 ≤ boot.secs) :
    keysAfter env s₀ [.bootstrap boot seed] ≠ [] ∧
    ∃ cache, (run (KeyService.step env) s₀ [.bootstrap boot seed]).cache = some cache ∧
      Loaded env s₀ (.bootstrap boot seed :: rest) [.bootstrap boot seed] [.bootstrap boot seed]
        boot cache := by
  obtain ⟨⟨db, cache⟩, hb⟩ := Option.isSome_iff_exists.1 (bootstrap_isSome env s₀.db boot seed)
  obtain ⟨rfl, ⟨-, hk⟩ | ⟨hne, -⟩⟩ := bootstrap_eq_some hb
  · have hrun : run (KeyService.step env) s₀ [.bootstrap boot seed] =
        ⟨db, some (env.reload db boot)⟩ := by
      rw [← List.nil_append [_], run_concat]
      simp [KeyService.step, run, hb]
    refine ⟨?_, _, by rw [hrun], ?_, List.prefix_rfl, ?_, hepoch⟩
    · rw [keysAfter, hrun]
      simp [hk]
    · rw [hrun]
    · have hv' : ValidRun env.policy ok ([] ++ .bootstrap boot seed :: rest) := hv
      exact (moment_before hv').2
  · exact absurd h₀ hne

/-- A key that signs from `at_'` on is in the table at `at_`, unless the lead
    is over. -/
theorem published_before {lead : ℕ} (hlead : lead < 2 ^ 62)
    (hk64 : asI64 env.policy.keepSecs = env.policy.keepSecs)
    {a b : Timestamp × List SigningKeyRecord} (hl : Later env (· = lead) a b) (hne : a.2 ≠ [])
    {issued : Timestamp} (hissued : t ≤ issued) (hsoon : issued.secs < a.1.secs + lead)
    (hi : issued.secs < 2 ^ 63 - 1) {k : SigningKeyRecord} (hk : k ∈ b.2) (hlive : k.Live issued) : ∃ k₀ ∈ a.2, k₀.Published t ∧ k₀.kid = k.kid := by
  have hforward : Forward (· = lead) := by
    rintro _ rfl
    exact asI64_of_lt (by omega)
  obtain ⟨i, hki⟩ := List.mem_iff_getElem?.1 hk
  cases hold : a.2[i]? with
  | some k₀ =>
    obtain ⟨k', hk', hr⟩ := Later.row hforward hk64 hl hold
    rw [hki] at hk'
    cases hk'
    exact ⟨k₀, List.mem_of_getElem? hold, hr.published hlive.2 hissued, hr.kid.symm⟩
  | none =>
    obtain ⟨-, hnew⟩ := Later.new_row hl hne
    obtain ⟨hcreated, hactivate⟩ := hnew hki hold
    have ha := hlive.1
    rw [hactivate, Timestamp.le_iff] at ha
    rw [Timestamp.le_iff] at hcreated
    simp only [Timestamp.plusSecs, hforward lead rfl] at ha
    omega

/-- **Where the lead leaves room**, a copy no older than `max-age` has the key
    of every token. -/
theorem known_of_room {times : IssuerTimes} (ht : times.Accepted)
    (hroom : times.jwksMaxAgeSecs + 60 ≤ times.publishLeadSecs) : VerifiersKnow times := by
  intro env s₀ boot seed ops hpolicy hring h₀ hrun before fetched between issued after kid hops hage
    hlast hsign
  have hbounds := IssuerTimes.accepted_iff.1 ht
  have hlead : env.policy.publishLeadSecs = times.publishLeadSecs := by rw [hpolicy]; rfl
  have hforward : Forward (· = env.policy.publishLeadSecs) := by
    rintro lead rfl
    exact asI64_of_lt (by omega)
  have hkeep : asI64 env.policy.keepSecs = env.policy.keepSecs := by
    refine (KeyPolicy.keepSecs_exact ?_).2
    rw [hpolicy]
    simp only [IssuerTimes.keyPolicy]
    omega
  -- the run starts with the boot
  obtain ⟨before, rfl⟩ : ∃ before', before = .bootstrap boot seed :: before' := by
    cases before with
    | nil => cases (List.cons_eq_cons.1 hops).1
    | cons op before' => exact ⟨before', by rw [(List.cons_eq_cons.1 hops).1]⟩
  have hv := hrun.valid
  rw [hops] at hv
  obtain ⟨hne, cache₀, hc₀, hl₀⟩ := loaded_boot hv h₀
    hrun.epoch
  -- what the broker holds at the fetch
  have hv₀ : ValidRun env.policy (· = env.policy.publishLeadSecs) ([.bootstrap boot seed] ++
      (before ++ .withKeys fetched :: (between ++ .withKeys issued :: after))) := hv
  obtain ⟨source₁, at₁, cache₁, hc₁, hl₁, hs₁, -⟩ := Loaded.steps hv₀ hc₀ hl₀
  obtain ⟨sourceF, atF, cacheF, hwF, hcF, hlF, hsF, -, hatF, hfetched⟩ := Loaded.use hv hc₁ hl₁
  have hmF := hlF.moment
  -- and at the issue
  have hsplit : .bootstrap boot seed :: before ++ .withKeys fetched ::
      (between ++ .withKeys issued :: after) =
      (.bootstrap boot seed :: before ++ [.withKeys fetched]) ++
        (between ++ .withKeys issued :: after) := by simp
  rw [hsplit] at hlF hv
  obtain ⟨source₂, at₂, cache₂, hc₂, hl₂, hs₂, hat₂⟩ := Loaded.steps hv hcF hlF
  rw [← List.append_assoc] at hl₂ hv
  obtain ⟨sourceI, atI, cacheI, hwI, -, hlI, hsI, hatI, hatI', -⟩ := Loaded.use hv hc₂ hl₂
  have hmI := hlI.moment
  rw [List.append_assoc, ← hsplit, ← hops] at hmI
  rw [← hops] at hmF
  -- one came from the other, and the key that signs was in it
  obtain ⟨more, rfl⟩ := hs₂.trans hsI
  have hlater := later_moments s₀ hrun.valid hmF hmI (hat₂.trans hatI)
  have hneF : keysAfter env s₀ sourceF ≠ [] := by
    obtain ⟨rest, rfl⟩ := hs₁.trans hsF
    have hv₁ : ValidRun env.policy (· = env.policy.publishLeadSecs)
        ([] ++ .bootstrap boot seed :: ops) := hrun.valid
    refine (Later.new_row (later_moments s₀ hrun.valid (moment_before hv₁).2 hmF ?_) hne).1
    exact hmF.past (.bootstrap boot seed) (by simp)
  have hconcat : .bootstrap boot seed :: before ++ .withKeys fetched :: between =
      (.bootstrap boot seed :: before ++ [.withKeys fetched]) ++ between := by simp
  rw [hconcat, KeyService.signingKid, hc₂, Option.bind_some, IssuerEnv.signingKid, hwI,
    hlI.eq] at hsign
  obtain ⟨⟨kid, secret⟩, hsome, rfl⟩ := Option.map_eq_some_iff.1 hsign
  obtain ⟨⟨k, i⟩, hr, rfl, hlive, -⟩ :=
    signing_eq_some (dated_moment hring h₀ hrun.valid hmI).usable hsome
  have hle : fetched ≤ issued := (moment_before hv).1.past (.withKeys fetched) (by simp)
  obtain ⟨k₀, hk₀, hp, hkid⟩ := published_before (by omega) hkeep hlater hneF (t := fetched) hle
    (by dsimp only; omega) hlast (mem_zipIdx_fst.1 ⟨_, hr, rfl⟩) hlive
  exact (mem_served hc₁ (hwF.trans hlF.eq)).2 ⟨k₀, hk₀, hp, hkid⟩

end

/-- The key added at the boot reading, and read a lead later, signs at once; a
    copy fetched up to 59 seconds after the boot does not have it. -/
theorem not_known {times : IssuerTimes} (ht : times.Accepted)
    (hroom : times.publishLeadSecs < times.jwksMaxAgeSecs + 60) : ¬ VerifiersKnow times := by
  intro hall
  have hbounds := IssuerTimes.accepted_iff.1 ht
  obtain ⟨lead, hlead⟩ : ∃ lead, times.publishLeadSecs = lead := ⟨_, rfl⟩
  let env : IssuerEnv := ⟨twoKids, ⟨1, [1]⟩, times.keyPolicy⟩
  let fetched : Timestamp := ⟨min 59 lead⟩
  let issued : Timestamp := ⟨lead⟩
  have hpolicy : env.policy.publishLeadSecs = lead := hlead
  have h64 : asI64 lead = lead := asI64_of_lt (by omega)
  -- the boot and the command
  obtain ⟨⟨db₁, cache⟩, hb⟩ := Option.isSome_iff_exists.1
    (bootstrap_isSome env (.fresh ⟨0⟩) ⟨0⟩ (flatSeed 0))
  obtain ⟨rfl, ⟨-, hk₁⟩ | ⟨hne, -⟩⟩ := bootstrap_eq_some hb
  swap
  · exact hne rfl
  have hnew : ∀ k ∈ db₁.signingKey, k.kid ≠ (env.newRow (flatSeed 1) ⟨0⟩ ⟨0⟩).kid := by
    intro k hk
    rw [hk₁, List.mem_singleton] at hk
    rw [hk]
    exact (by decide : "a" ≠ "b")
  obtain ⟨⟨db₂, rotation⟩, hc⟩ := Option.isSome_iff_exists.1
    (rotate_isSome none "cli" hnew)
  obtain ⟨-, hk₂, -⟩ := rotate_eq_some hc
  rw [Option.getD_none, hpolicy, hk₁] at hk₂
  have hbefore : run (KeyService.step env) ⟨.fresh ⟨0⟩, none⟩
      [.bootstrap ⟨0⟩ (flatSeed 0), .command ⟨0⟩ false (flatSeed 1)] =
      ⟨db₂, some (env.reload db₁ ⟨0⟩)⟩ := by
    simp [run, KeyService.step, hb, hc]
  have hmin : (min 59 lead : ℕ) ≤ 59 := min_le_left _ _
  -- the fetch finds the keys of the boot
  have hfetch : env.withKeys db₂ (env.reload db₁ ⟨0⟩) fetched = env.reload db₁ ⟨0⟩ := by
    have hsince : fetched.since ⟨0⟩ < reloadIntervalSecs := by
      rw [since_exact le_rfl (by simp only [fetched]; omega) (by simp only [fetched]; omega),
        reloadIntervalSecs]
      simp only [fetched]
      omega
    simp [IssuerEnv.withKeys, IssuerEnv.reload, hsince]
  have hreload : env.withKeys db₂ (env.reload db₂ issued) issued = env.reload db₂ issued := by
    simp [IssuerEnv.withKeys]
  have hbetween : run (KeyService.step env) ⟨.fresh ⟨0⟩, none⟩
      ([.bootstrap ⟨0⟩ (flatSeed 0), .command ⟨0⟩ false (flatSeed 1)] ++
        .withKeys fetched :: [.reload issued]) = ⟨db₂, some (env.reload db₂ issued)⟩ := by
    rw [run_append, hbefore]
    simp [run, KeyService.step]
  -- the new key signs
  have hsigns : ((env.reload db₂ issued).signing issued).map (·.1) = some "b" := by
    have hdated : Dated env ⟨0⟩ db₂.signingKey := by
      have hring : env.ring.active ∈ env.ring.keys := List.mem_singleton_self _
      have hi : (⟨0⟩ : Timestamp).IsI64 := by decide
      have hcreate : KeyMove env (· = lead) ⟨0⟩ [] db₁.signingKey := by
        rw [hk₁]
        exact .create (flatSeed 0)
      have hrotate : KeyMove env (· = lead) ⟨0⟩ db₁.signingKey db₂.signingKey := by
        rw [hk₂, ← hk₁]
        exact .rotate _ lead (flatSeed 1) rfl hnew
      exact ((Dated.nil env ⟨0⟩).move hring hi hcreate).move hring hi hrotate
    have hrow : db₂.signingKey[1]? =
        some (env.newRow (flatSeed 1) ⟨0⟩ ((⟨0⟩ : Timestamp).plusSecs lead)) := by
      rw [hk₂]
      exact getElem?_rotated.2 (Or.inr ⟨rfl, rfl⟩)
    have hlive : (env.newRow (flatSeed 1) ⟨0⟩ ((⟨0⟩ : Timestamp).plusSecs lead)).Live issued := by
      refine ⟨?_, published_iff.2 ⟨rfl, fun e he => by cases he⟩⟩
      simp only [Timestamp.le_iff, IssuerEnv.newRow, Timestamp.plusSecs, h64, issued]
      omega
    have hsome : ((db₂.freshCache env.scheme env.ring issued).signing issued).isSome :=
      (signing_isSome hdated.usable).2 ⟨_, List.mem_of_getElem? hrow, hlive⟩
    obtain ⟨⟨kid, secret⟩, hsome⟩ := Option.isSome_iff_exists.1 hsome
    obtain ⟨⟨k, i⟩, hr, hkid, -, hmax⟩ := signing_eq_some hdated.usable hsome
    have hle := hmax _ (List.mk_mem_zipIdx_iff_getElem?.2 hrow) hlive
    have hki := List.mk_mem_zipIdx_iff_getElem?.1 hr
    rw [hk₂] at hki
    rcases getElem?_rotated.1 hki with ⟨k₀, hk₀, rfl⟩ | ⟨-, rfl⟩
    · -- the first key is older
      obtain rfl := List.mem_singleton.1 (List.mem_of_getElem? hk₀)
      rw [redate_age] at hle
      refine absurd hle (not_le.2 (age_lt_newRow le_rfl ?_ (List.getElem?_eq_some_iff.1 hk₀).1))
      simp only [Timestamp.le_iff, IssuerEnv.newRow, Timestamp.plusSecs, h64]
      omega
    · rw [IssuerEnv.reload, hsome, Option.map_some, ← hkid]
      exact (by decide : some "b" = some "b")
  have hrun : OrdinaryRun env.policy ⟨0⟩ (flatSeed 0)
      [.command ⟨0⟩ false (flatSeed 1), .withKeys fetched, .reload issued, .withKeys issued] := by
    refine ⟨⟨?_, ?_, ?_⟩, by simp [KeyServiceOp.ordinary], le_rfl⟩
    · simp [KeyServiceOp.now, Timestamp.le_iff, fetched, issued]
    · simp [KeyServiceOp.now, Timestamp.IsI64, fetched, issued]
      omega
    · simp [KeyServiceOp.lead?]
  have hknown := hall env ⟨.fresh ⟨0⟩, none⟩ ⟨0⟩ (flatSeed 0)
    [.command ⟨0⟩ false (flatSeed 1), .withKeys fetched, .reload issued, .withKeys issued]
    rfl (List.mem_singleton_self _) rfl hrun
    [.bootstrap ⟨0⟩ (flatSeed 0), .command ⟨0⟩ false (flatSeed 1)] fetched [.reload issued] issued []
    "b" rfl (by simp only [fetched, issued]; omega) (by simp only [issued]; omega)
    (by rw [hbetween, KeyService.signingKid, Option.bind_some, IssuerEnv.signingKid, hreload, hsigns])
  rw [mem_served (by rw [hbefore]) (by rw [hbefore]; exact hfetch), hk₁] at hknown
  obtain ⟨k, hk, -, hkid⟩ := hknown
  rw [List.mem_singleton] at hk
  rw [hk] at hkid
  exact absurd hkid (by decide : "a" ≠ "b")

/-- **Verifiers that obey the cache headers know the key of every token** iff
    the publish lead leaves room for `max-age` and for the minute that the
    broker may hold its keys. -/
theorem verifiers_know_iff (times : IssuerTimes) (h : times.Accepted) :
    VerifiersKnow times ↔ times.jwksMaxAgeSecs + 60 ≤ times.publishLeadSecs :=
  ⟨fun hall => not_lt.1 fun hlt => not_known h hlt hall, known_of_room h⟩

/-- The defaults leave room. -/
theorem verifiers_know_default : VerifiersKnow {} :=
  (verifiers_know_iff {} (IssuerTimes.accepted_iff.2 (by decide))).2 (by decide)

/-- The issuer accepts a lead as long as `max-age`. -/
theorem unknown_kid : IssuerTimes.Accepted { publishLeadSecs := 300 } ∧
    ¬ VerifiersKnow { publishLeadSecs := 300 } :=
  ⟨IssuerTimes.accepted_iff.2 (by decide),
    not_known (IssuerTimes.accepted_iff.2 (by decide)) (by decide)⟩

end SessionBroker
