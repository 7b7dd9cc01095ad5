/-
  The life of a signing key, over whole runs of the issuer.

  * a `Moment` of a run is a prefix of it with a reading of the clock between
    its last operation and the next;
  * `KeyLifecycle` is what holds at every moment and between any two:
    which key is open-ended, whose date moves, which key signs and for how
    long, what the prune leaves, and for how long a token's key is published;
  * `key_lifecycle`: it holds of every run under a policy whose longest
    lifetime, with the margin, fits an `i64`.
-/
import SessionBroker.KeyDates

namespace SessionBroker

open Relation Runs SigningKeyRecord

/-! ## Statement -/

def smallLead (lead : ℕ) : Prop := lead < 2 ^ 62

instance : DecidablePred smallLead := fun lead => inferInstanceAs (Decidable (lead < 2 ^ 62))

theorem forward_smallLead : Forward smallLead := by
  intro lead h
  unfold smallLead at h
  exact asI64_of_lt (by omega)

/-- After the operations `before` of the run `ops` the clock reads `t`. -/
structure Moment (ops before : List KeyServiceOp) (t : Timestamp) : Prop where
  isPrefix : before <+: ops
  past : ∀ op ∈ before, op.now ≤ t
  future : ∀ op ∈ ops.drop before.length, t ≤ op.now
  isI64 : t.IsI64

/-- A run at nondecreasing times, with such leads only. -/
structure ValidRun (policy : KeyPolicy) (ok : ℕ → Prop) (ops : List KeyServiceOp) : Prop where
  sorted : (ops.map KeyServiceOp.now).Pairwise (· ≤ ·)
  isI64 : ∀ op ∈ ops, op.now.IsI64
  lead : ∀ op ∈ ops, ∀ lead ∈ op.lead? policy, ok lead

/-- The arguments of the `rotate` that an operation calls. -/
def KeyServiceOp.rotation? : KeyServiceOp → Option (Option ℕ × String × Seed)
  | rotate _ activateInSecs actorId seed => some (activateInSecs, actorId, seed)
  | command _ immediate seed => some (if immediate then some 0 else none, "cli", seed)
  | _ => none

section
variable (env : IssuerEnv) (s₀ : KeyService)

/-- The table after the operations. -/
def keysAfter (ops : List KeyServiceOp) : List SigningKeyRecord :=
  (run (KeyService.step env) s₀ ops).db.signingKey

/-- The `kid` that signs at `t`, on rows loaded after the operations. -/
def signerAfter (ops : List KeyServiceOp) (t : Timestamp) : Option String :=
  ((env.reload (run (KeyService.step env) s₀ ops).db t).signing t).map (·.1)

/-- The `kid`s published at `t`, on rows loaded after the operations. -/
def publishedAfter (ops : List KeyServiceOp) (t : Timestamp) : List String :=
  ((env.reload (run (KeyService.step env) s₀ ops).db t).published t).map (·.kid)

structure KeyLifecycle (ops : List KeyServiceOp) : Prop where
  /-- After a rotation one key not removed has no end, and it is the new one. -/
  oneOpen : ∀ before op after activateInSecs actorId seed db rotation,
    ops = before ++ op :: after → op.rotation? = some (activateInSecs, actorId, seed) →
    env.rotate (run (KeyService.step env) s₀ before).db op.now activateInSecs actorId seed =
      some (db, rotation) →
    (keysAfter env s₀ (before ++ [op])).filter (fun k => k.removedAt = none ∧ k.retireAt = none) =
      [env.newRow seed op.now (op.now.plusSecs (activateInSecs.getD env.policy.publishLeadSecs))]
  /-- No end is moved later. -/
  neverLater : ∀ before op after, ops = before ++ op :: after →
    ∀ (i : ℕ) (k : SigningKeyRecord), (keysAfter env s₀ before)[i]? = some k →
      ∃ k', (keysAfter env s₀ (before ++ [op]))[i]? = some k' ∧ k'.kid = k.kid ∧
        ∀ e, k.retireAt = some e → ∃ e', k'.retireAt = some e' ∧ e' ≤ e
  /-- A key signs from its activation, and only the newest that is published. -/
  signs : ∀ before t kid, Moment ops before t → signerAfter env s₀ before t = some kid →
    ∃ (i : ℕ) (k : SigningKeyRecord), (keysAfter env s₀ before)[i]? = some k ∧ k.kid = kid ∧
      k.Live t ∧ ∀ (j : ℕ) (k' : SigningKeyRecord), (keysAfter env s₀ before)[j]? = some k' → k'.Live t → age (k', j) ≤ age (k, i)
  /-- Once a newer published key has activated, it never signs again. -/
  untilNewer : ∀ before more t t', Moment ops before t → Moment ops (before ++ more) t' → t ≤ t' →
    ∀ (i j : ℕ) (k k' : SigningKeyRecord), (keysAfter env s₀ before)[i]? = some k → (keysAfter env s₀ before)[j]? = some k' →
      age (k, i) < age (k', j) → k'.Live t → signerAfter env s₀ (before ++ more) t' ≠ some k.kid
  /-- A key overtaken by a rotation that activates earlier never signs. -/
  overtaken : ∀ before op more t activateInSecs actorId seed db rotation,
    op.rotation? = some (activateInSecs, actorId, seed) →
    env.rotate (run (KeyService.step env) s₀ before).db op.now activateInSecs actorId seed =
      some (db, rotation) →
    Moment ops (before ++ op :: more) t →
    ∀ k ∈ keysAfter env s₀ before,
      op.now.plusSecs (activateInSecs.getD env.policy.publishLeadSecs) < k.activateAt →
      signerAfter env s₀ (before ++ op :: more) t ≠ some k.kid
  /-- The prune leaves what is published. -/
  prune : ∀ before now after, ops = before ++ .pruneRetired now :: after →
    ∀ k ∈ keysAfter env s₀ before, k.Published now →
      k ∈ keysAfter env s₀ (before ++ [.pruneRetired now])
  /-- A token's key is published until the token expires, where no rotation
      after the signature has lead `0`. -/
  token : ∀ before more s t kid lifetime, Moment ops before s → Moment ops (before ++ more) t →
    s ≤ t → signerAfter env s₀ before s = some kid → lifetime ≤ env.policy.maxTtlSecs →
    t ≤ s.plusSecs lifetime → t.secs < 2 ^ 63 - 1 →
    (∀ op ∈ more, op.lead? env.policy ≠ some 0) → kid ∈ publishedAfter env s₀ (before ++ more) t

end

/-! ## Moments -/

section
variable {env : IssuerEnv} {s₀ : KeyService} {ops before more : List KeyServiceOp}
  {t t' : Timestamp} {ok : ℕ → Prop}

theorem ValidRun.sublist (h : ValidRun env.policy ok ops) (hs : more.Sublist ops) :
    ValidRun env.policy ok more where
  sorted := h.sorted.sublist (hs.map _)
  isI64 := fun op hop => h.isI64 op (hs.subset hop)
  lead := fun op hop => h.lead op (hs.subset hop)

variable (s₀) in
/-- Between two moments. -/
theorem later_moments (h : ValidRun env.policy ok ops) (hm : Moment ops before t)
    (hm' : Moment ops (before ++ more) t') (ht : t ≤ t') :
    Later env ok (t, keysAfter env s₀ before) (t', keysAfter env s₀ (before ++ more)) := by
  obtain ⟨rest, rfl⟩ := hm'.isPrefix
  have hmore : more.Sublist (before ++ more ++ rest) := by simp
  have hbetween : KeyServiceOp.Between env.policy ok t t' more := by
    refine ⟨(h.sublist hmore).sorted, fun op hop => hm.future op ?_, fun op hop => ?_,
      fun op hop => h.lead op (hmore.subset hop)⟩
    · rw [List.append_assoc, List.drop_left]
      exact List.mem_append_left _ hop
    · exact hm'.past op (List.mem_append_right _ hop)
  have hlater := KeyService.run_later ht hm.isI64 hm'.isI64 (run (KeyService.step env) s₀ before)
    more hbetween
  rwa [← run_append] at hlater

/-- A moment, from an empty table on. -/
theorem later_empty (h₀ : s₀.db.signingKey = []) (h : ValidRun env.policy ok ops)
    (hm : Moment ops before t) : ∃ t₀, Later env ok (t₀, []) (t, keysAfter env s₀ before) := by
  rw [← h₀]
  cases before with
  | nil => exact ⟨t, .refl⟩
  | cons op before =>
    -- the run starts at the reading of its first operation
    obtain ⟨rest, rfl⟩ := hm.isPrefix
    have hv : ValidRun env.policy ok (op :: before) := h.sublist (by simp)
    have hsorted := hv.sorted
    rw [List.map_cons, List.pairwise_cons] at hsorted
    refine ⟨op.now, KeyService.run_later (hm.past op (List.mem_cons_self ..))
      (hv.isI64 op (List.mem_cons_self ..)) hm.isI64 s₀ (op :: before)
      ⟨hv.sorted, ?_, hm.past, hv.lead⟩⟩
    intro o ho
    rcases List.mem_cons.1 ho with rfl | ho
    · exact le_rfl
    · exact hsorted.1 _ (List.mem_map_of_mem ho)

/-- The dates at a moment. -/
theorem dated_moment (hring : env.ring.active ∈ env.ring.keys) (h₀ : s₀.db.signingKey = [])
    (h : ValidRun env.policy ok ops) (hm : Moment ops before t) :
    Dated env t (keysAfter env s₀ before) := by
  obtain ⟨t₀, hlater⟩ := later_empty h₀ h hm
  exact (Dated.nil env t₀).later hring hlater

theorem ranked_moment (hring : env.ring.active ∈ env.ring.keys) (h₀ : s₀.db.signingKey = [])
    (h : ValidRun env.policy smallLead ops) (hm : Moment ops before t) :
    Ranked t (keysAfter env s₀ before) := by
  obtain ⟨t₀, hlater⟩ := later_empty h₀ h hm
  exact Ranked.later forward_smallLead hring (Dated.nil env t₀)
    (fun i j k k' hk => by simp at hk) hlater

/-- The moments around an operation. -/
theorem moment_before {op : KeyServiceOp} {after : List KeyServiceOp}
    (h : ValidRun env.policy ok (before ++ op :: after)) :
    Moment (before ++ op :: after) before op.now ∧
      Moment (before ++ op :: after) (before ++ [op]) op.now := by
  have hsorted := h.sorted
  rw [List.map_append, List.map_cons, List.pairwise_append, List.pairwise_cons] at hsorted
  obtain ⟨-, ⟨hafter, -⟩, hbefore⟩ := hsorted
  have hop := h.isI64 op (by simp)
  have hpast : ∀ o ∈ before, o.now ≤ op.now := fun o ho =>
    hbefore _ (List.mem_map_of_mem ho) _ (List.mem_cons_self ..)
  have hfuture : ∀ o ∈ after, op.now ≤ o.now := fun o ho => hafter _ (List.mem_map_of_mem ho)
  refine ⟨⟨List.prefix_append _ _, hpast, ?_, hop⟩, ⟨⟨after, by simp⟩, ?_, ?_, hop⟩⟩
  · rw [List.drop_left]
    intro o ho
    rcases List.mem_cons.1 ho with rfl | ho
    · exact le_rfl
    · exact hfuture o ho
  · intro o ho
    rcases List.mem_append.1 ho with ho | ho
    · exact hpast o ho
    · rw [List.mem_singleton.1 ho]
  · have hsplit : before ++ op :: after = (before ++ [op]) ++ after := by simp
    rw [hsplit, List.drop_left]
    exact hfuture

/-- A rotation that succeeds, in a run. -/
theorem keysAfter_rotation {op : KeyServiceOp} {activateInSecs : Option ℕ} {actorId : String}
    {seed : Seed} {db : Db} {rotation : Rotation}
    (hop : op.rotation? = some (activateInSecs, actorId, seed))
    (h : env.rotate (run (KeyService.step env) s₀ before).db op.now activateInSecs actorId seed =
      some (db, rotation)) :
    keysAfter env s₀ (before ++ [op]) = env.rotated (keysAfter env s₀ before) op.now
      (activateInSecs.getD env.policy.publishLeadSecs) seed := by
  obtain ⟨-, hk, -⟩ := rotate_eq_some h
  rw [keysAfter, run_concat, keysAfter, ← hk]
  cases op with
  | rotate now =>
    cases hop
    simp only [KeyServiceOp.now] at h
    simp [KeyService.step, h]
  | command now immediate seed =>
    cases hop
    simp only [KeyServiceOp.now] at h
    simp [KeyService.step, h]
  | _ => cases hop

/-! ## The parts -/

theorem KeyPolicy.keepSecs_exact {policy : KeyPolicy} (h : policy.maxTtlSecs + 300 < 2 ^ 63) :
    policy.keepSecs = policy.maxTtlSecs + 300 ∧ asI64 policy.keepSecs = policy.keepSecs := by
  have hk : policy.keepSecs = policy.maxTtlSecs + 300 := by
    simp only [KeyPolicy.keepSecs, saturatingAddU64, retireMarginSecs]
    omega
  exact ⟨hk, asI64_of_lt (by omega)⟩

/-- The signer is a row. -/
theorem signer_row (hd : Dated env t (keysAfter env s₀ before)) {kid : String}
    (h : signerAfter env s₀ before t = some kid) :
    ∃ (i : ℕ) (k : SigningKeyRecord), (keysAfter env s₀ before)[i]? = some k ∧ k.kid = kid ∧
      k.Live t ∧ ∀ (j : ℕ) (k' : SigningKeyRecord), (keysAfter env s₀ before)[j]? = some k' →
        k'.Live t → age (k', j) ≤ age (k, i) := by
  obtain ⟨⟨kid', seed⟩, hs, rfl⟩ := Option.map_eq_some_iff.1 h
  obtain ⟨⟨k, i⟩, hr, hk, hlive, hmax⟩ := signing_eq_some hd.usable hs
  refine ⟨i, k, List.mk_mem_zipIdx_iff_getElem?.1 hr, hk, hlive, fun j k' hk' hlive' => ?_⟩
  exact hmax (k', j) (List.mk_mem_zipIdx_iff_getElem?.2 hk') hlive'

/-- Rows with the same `kid` are one row. -/
theorem Dated.row_eq {keys : List SigningKeyRecord} (hd : Dated env t keys) {i j : ℕ}
    {k k' : SigningKeyRecord} (hk : keys[i]? = some k) (hk' : keys[j]? = some k')
    (he : k.kid = k'.kid) : i = j ∧ k = k' := by
  have hi := (List.getElem?_eq_some_iff.1 hk).1
  have hij : i = j := by
    refine (List.getElem?_inj (by simpa using hi) hd.kids).1 ?_
    rw [List.getElem?_map, List.getElem?_map, hk, hk', Option.map_some, Option.map_some, he]
  subst hij
  rw [hk] at hk'
  exact ⟨rfl, Option.some.inj hk'⟩

/-- A key that is over does not sign. -/
theorem not_signer_of_ends (hd : Dated env t (keysAfter env s₀ before)) {i : ℕ}
    {k : SigningKeyRecord} (hk : (keysAfter env s₀ before)[i]? = some k) (he : k.Ends t) :
    signerAfter env s₀ before t ≠ some k.kid := by
  intro hs
  obtain ⟨j, k', hk', hkid, hlive, -⟩ := signer_row hd hs
  obtain ⟨-, rfl⟩ := hd.row_eq hk hk' hkid.symm
  exact (published_iff_not_ends.1 hlive.2).2 he

/-- What the prune leaves. -/
theorem mem_pruneRetired {db : Db} {now : Timestamp} {k : SigningKeyRecord} (hk : k ∈ db.signingKey)
    (hp : k.Published now) : k ∈ (env.pruneRetired db now).1.signingKey := by
  unfold IssuerEnv.pruneRetired
  generalize db.retiredSigningKeysDue now = due
  generalize 0 = n
  induction due generalizing db n with
  | nil => exact hk
  | cons kid due ih =>
    have hkeys := removeDue_keys env now (db, n) kid
    rw [List.foldl_cons]
    generalize env.removeDue now (db, n) kid = r at hkeys
    refine ih ?_ r.2
    rw [hkeys, removeKid]
    refine Table.mem_updateWhere.2 ⟨k, hk, if_neg fun hr => ?_⟩
    rw [Bool.and_eq_true, retired_iff] at hr
    exact (published_iff_not_ends.1 hp).2 hr.2.2

/-- One move on a key that signed at `s`: it stays published up to `t`. -/
theorem KeyMove.published {s now : Timestamp} {keys keys' : List SigningKeyRecord}
    (hpolicy : env.policy.maxTtlSecs + 300 < 2 ^ 63)
    (hm : KeyMove env (fun lead => smallLead lead ∧ lead ≠ 0) now keys keys') (hi : now.IsI64)
    (hs : s ≤ now) (ht : now ≤ t) (hexp : t.secs ≤ s.secs + env.policy.maxTtlSecs)
    (hlast : t.secs < 2 ^ 63 - 1) {i : ℕ} {k : SigningKeyRecord} (hk : keys[i]? = some k)
    (ha : k.activateAt ≤ s) (hp : k.Published t) :
    ∃ k', keys'[i]? = some k' ∧ k'.kid = k.kid ∧ k'.activateAt ≤ s ∧ k'.Published t := by
  obtain ⟨hkeep, hkeep64⟩ := KeyPolicy.keepSecs_exact hpolicy
  obtain ⟨hr, hend⟩ := published_iff.1 hp
  cases hm with
  | create seed => simp at hk
  | rotate _ lead seed hl hnew =>
    have hlead := forward_smallLead lead hl.1
    have hA := plusSecs_ge hi hlead
    obtain ⟨e, hredate, -, hdate, -⟩ :=
      redate_spec now (now.plusSecs lead) (env.policy.retireAt now lead) k
    refine ⟨_, getElem?_rotated.2 (Or.inl ⟨k, hk, rfl⟩), ?_, ?_, ?_⟩
    · rw [hredate]
    · rwa [redate_activateAt]
    · rw [published_iff, redate_removedAt, hredate]
      refine ⟨hr, fun e' he' => ?_⟩
      dsimp only at he'
      rcases hdate with hd | hd | ⟨hd, hlt⟩
      · exact hend e' (hd.symm.trans he')
      · rw [hd, KeyPolicy.retireAt, if_neg hl.2] at he'
        rw [← Option.some.inj he', Timestamp.lt_iff]
        have := hl.2
        rw [Timestamp.le_iff] at hs ht
        simp only [Timestamp.plusSecs, hlead, hkeep64]
        omega
      · exact absurd (ha.trans (hs.trans hA)) (not_le.2 hlt)
  | remove _ kid =>
    refine ⟨k, ?_, rfl, ha, hp⟩
    rw [removeKid, Table.updateWhere, List.getElem?_map, hk, Option.map_some, if_neg]
    intro hret
    rw [Bool.and_eq_true, retired_iff] at hret
    exact (published_iff_not_ends.1 hp).2 (hret.2.2.mono ht)

/-- **A key that signed at `s` stays published up to `t`**, while no rotation
    has lead `0`. -/
theorem Later.published {a b : Timestamp × List SigningKeyRecord}
    (hpolicy : env.policy.maxTtlSecs + 300 < 2 ^ 63)
    (hl : Later env (fun lead => smallLead lead ∧ lead ≠ 0) a b) (ht : b.1 ≤ t)
    (hexp : t.secs ≤ a.1.secs + env.policy.maxTtlSecs) (hlast : t.secs < 2 ^ 63 - 1) {i : ℕ}
    {k : SigningKeyRecord} (hk : a.2[i]? = some k) (ha : k.activateAt ≤ a.1) (hp : k.Published t) :
    ∃ k', b.2[i]? = some k' ∧ k'.kid = k.kid ∧ k'.activateAt ≤ a.1 ∧ k'.Published t := by
  induction hl with
  | refl => exact ⟨k, hk, rfl, ha, hp⟩
  | tail hl hstep ih =>
    obtain ⟨hle, hi, hmove⟩ := hstep
    obtain ⟨k', hk', hkid, ha', hp'⟩ := ih (hle.trans ht)
    rcases hmove with hsame | hmove
    · rw [hsame]
      exact ⟨k', hk', hkid, ha', hp'⟩
    · obtain ⟨k'', hk'', hkid', ha'', hp''⟩ :=
        hmove.published hpolicy hi ((Later.le hl).trans hle) ht hexp hlast hk' ha' hp'
      exact ⟨k'', hk'', hkid'.trans hkid, ha'', hp''⟩

/-- The key that signs at `s` is dated past every token it signs then. -/
theorem signer_published (hpolicy : env.policy.maxTtlSecs + 300 < 2 ^ 63)
    (hd : Dated env t (keysAfter env s₀ before)) {i : ℕ} {k : SigningKeyRecord}
    (hk : (keysAfter env s₀ before)[i]? = some k) (hlive : k.Live t)
    (hmax : ∀ (j : ℕ) (k' : SigningKeyRecord), (keysAfter env s₀ before)[j]? = some k' →
      k'.Live t → age (k', j) ≤ age (k, i))
    (hexp : t'.secs ≤ t.secs + env.policy.maxTtlSecs) (hlast : t'.secs < 2 ^ 63 - 1) :
    k.Published t' := by
  obtain ⟨hkeep, hkeep64⟩ := KeyPolicy.keepSecs_exact hpolicy
  obtain ⟨hr, hend⟩ := published_iff.1 hlive.2
  refine published_iff.2 ⟨hr, fun e he => ?_⟩
  obtain ⟨j, k', hk', hage, hsum, hout⟩ := hd.succeeded i k e hk he (hend e he)
  -- had the successor activated, it would sign
  have ha : t < k'.activateAt := by
    by_contra ha
    refine absurd (hmax j k' hk' ⟨not_lt.1 ha, published_iff_not_ends.2 ⟨?_, ?_⟩⟩) (not_le.2 hage)
    · by_contra hr'
      obtain ⟨e', he', hle⟩ := hd.removed k' (List.mem_of_getElem? hk') hr'
      exact absurd ((hout e' he').trans hle) (not_le.2 (hend e he))
    · rintro ⟨e', he', hle⟩
      exact absurd ((hout e' he').trans hle) (not_le.2 (hend e he))
  rw [← hsum, Timestamp.lt_iff]
  rw [Timestamp.lt_iff] at ha
  simp only [Timestamp.plusSecs, hkeep64]
  omega

/-- A published key that a newer one replaced does not come back. -/
theorem newer_signs (hd : Dated env t' (keysAfter env s₀ more))
    (hrank : Ranked t' (keysAfter env s₀ more)) (ht : t ≤ t') {i j : ℕ}
    {k k₀ k' : SigningKeyRecord} (hk : (keysAfter env s₀ more)[i]? = some k)
    (hk' : (keysAfter env s₀ more)[j]? = some k') (hlt : age (k, i) < age (k', j))
    (hred : Redated t k₀ k') (hlive : k₀.Live t) : signerAfter env s₀ more t' ≠ some k.kid := by
  intro hs
  obtain ⟨i', k₁, hk₁, hkid, hlive₁, hmax⟩ := signer_row hd hs
  obtain ⟨rfl, rfl⟩ := hd.row_eq hk hk₁ hkid.symm
  have hend := (published_iff_not_ends.1 hlive₁.2).2
  have ha : k'.activateAt ≤ t := by
    rw [hred.activateAt]
    exact hlive.1
  rcases hrank i j k k' hk hk' hlt with hout | he | ⟨e, he, hover⟩
  · -- as long as the older one is published the newer one is
    have hno : ¬ k'.Ends t' := by
      rintro ⟨e', he', hle⟩
      obtain ⟨e, he, hle'⟩ := hout e' he'
      exact hend ⟨e, he, hle'.trans hle⟩
    have hr : k'.removedAt = none := by
      by_contra hr
      exact hno (hd.removed k' (List.mem_of_getElem? hk') hr)
    exact absurd (hmax j k' hk' ⟨ha.trans ht, published_iff_not_ends.2 ⟨hr, hno⟩⟩) (not_le.2 hlt)
  · exact hend he
  · -- no end lies before an activation that has been
    rcases hred.future with hf | ⟨e', he', hle⟩
    · exact absurd ((published_iff.1 hlive.2).2 e (hf.symm.trans he)) (not_lt.2 (hover.le.trans ha))
    · rw [he] at he'
      cases he'
      exact absurd (hle.trans_lt hover) (not_lt.2 ha)

end

/-- **The life of a signing key.**  For every policy whose longest lifetime,
    with the margin, fits an `i64`, and every run from a store without keys. -/
theorem key_lifecycle (env : IssuerEnv) (hpolicy : env.policy.maxTtlSecs + 300 < 2 ^ 63)
    (hring : env.ring.active ∈ env.ring.keys) (s₀ : KeyService) (h₀ : s₀.db.signingKey = [])
    (ops : List KeyServiceOp) (h : ValidRun env.policy smallLead ops) : KeyLifecycle env s₀ ops where
  oneOpen := by
    rintro before op after activateInSecs actorId seed db rotation rfl hop hrot
    rw [keysAfter_rotation hop hrot, IssuerEnv.rotated, List.filter_append, redate_open]
    rfl
  neverLater := by
    rintro before op after rfl i k hk
    obtain ⟨hm, hm'⟩ := moment_before h
    obtain ⟨k', hk', hr⟩ := Later.row forward_smallLead
      (KeyPolicy.keepSecs_exact hpolicy).2 (later_moments s₀ h hm hm' le_rfl) hk
    exact ⟨k', hk', hr.kid, hr.sooner⟩
  signs := fun before t kid hm hs => signer_row (dated_moment hring h₀ h hm) hs
  untilNewer := by
    intro before more t t' hm hm' ht i j k k' hk hk' hlt hlive
    have hlater := later_moments s₀ h hm hm' ht
    have hkeep := (KeyPolicy.keepSecs_exact hpolicy).2
    obtain ⟨k₁, hk₁, hr⟩ := Later.row forward_smallLead hkeep hlater hk
    obtain ⟨k₁', hk₁', hr'⟩ := Later.row forward_smallLead hkeep hlater hk'
    rw [← hr.kid]
    refine newer_signs (dated_moment hring h₀ h hm') (ranked_moment hring h₀ h hm') ht hk₁ hk₁' ?_
      hr' hlive
    rwa [hr.age, hr'.age]
  overtaken := by
    intro before op more t activateInSecs actorId seed db rotation hop hrot hm k hk hlt
    obtain ⟨rest, rfl⟩ := hm.isPrefix
    have hsplit : before ++ op :: more = (before ++ [op]) ++ more := by simp
    have hv : ValidRun env.policy smallLead (before ++ op :: (more ++ rest)) := by simpa using h
    have hcut : before ++ op :: more ++ rest = before ++ op :: (more ++ rest) := by simp
    rw [hcut] at hm h
    obtain ⟨hm₀, hm₁⟩ := moment_before hv
    obtain ⟨i, hi⟩ := List.mem_iff_getElem?.1 hk
    -- the rotation ends the key at once
    set retireAt := env.policy.retireAt op.now (activateInSecs.getD env.policy.publishLeadSecs)
    have hends := redate_ends retireAt ((dated_moment hring h₀ hv hm₀).removed k hk) hlt
    have hrow : (keysAfter env s₀ (before ++ [op]))[i]? = some (k.redate op.now
        (op.now.plusSecs (activateInSecs.getD env.policy.publishLeadSecs)) retireAt) := by
      rw [keysAfter_rotation hop hrot]
      exact getElem?_rotated.2 (Or.inl ⟨k, hi, rfl⟩)
    have ht : op.now ≤ t := hm.past op (by simp)
    rw [hsplit] at hm ⊢
    obtain ⟨k', hk', hred⟩ := Later.row forward_smallLead (KeyPolicy.keepSecs_exact hpolicy).2
      (later_moments s₀ hv hm₁ hm ht) hrow
    have hkid : k'.kid = k.kid := by rw [hred.kid, redate_kid]
    rw [← hkid]
    exact not_signer_of_ends (dated_moment hring h₀ hv hm) hk' (hred.ends (hends.mono ht))
  prune := by
    rintro before now after rfl k hk hp
    rw [keysAfter, run_concat]
    exact mem_pruneRetired hk hp
  token := by
    intro before more s t kid lifetime hm hm' hst hs hlife hexp hlast hzero
    have hd := dated_moment hring h₀ h hm
    obtain ⟨i, k, hk, rfl, hlive, hmax⟩ := signer_row hd hs
    have hexp' : t.secs ≤ s.secs + env.policy.maxTtlSecs := by
      have hs64 := hm.isI64.1
      rw [Timestamp.le_iff] at hexp
      simp only [Timestamp.plusSecs, asI64_of_lt (show lifetime < 2 ^ 63 by omega)] at hexp
      omega
    have hp := signer_published hpolicy hd hk hlive hmax hexp' hlast
    -- the rest of the run, whose leads are not zero
    obtain ⟨rest, hops⟩ := hm'.isPrefix
    have hmore : more.Sublist ops := by
      rw [← hops]
      simp
    have hv := h.sublist hmore
    have hbetween : KeyServiceOp.Between env.policy (fun lead => smallLead lead ∧ lead ≠ 0) s t
        more := by
      refine ⟨hv.sorted, fun op hop => hm.future op ?_, fun op hop => ?_, fun op hop lead hlead => ?_⟩
      · rw [← hops, List.append_assoc, List.drop_left]
        exact List.mem_append_left _ hop
      · exact hm'.past op (List.mem_append_right _ hop)
      · refine ⟨hv.lead op hop lead hlead, fun hz => hzero op hop ?_⟩
        rw [← hz]
        exact hlead
    have hlater := KeyService.run_later hst hm.isI64 hm'.isI64
      (run (KeyService.step env) s₀ before) more hbetween
    rw [← run_append] at hlater
    obtain ⟨k', hk', hkid, -, hp'⟩ :=
      Later.published hpolicy hlater le_rfl hexp' hlast hk hlive.1 hp
    refine List.mem_map.2 ⟨k', mem_published_freshCache.2 ⟨List.mem_of_getElem? hk', hp'⟩, hkid⟩

/-- A scheme with two key ids. -/
def twoKids : KeyScheme := ⟨id, fun publicKey => if publicKey.head? = some 0 then "a" else "b"⟩

/-- The seed of thirty-two equal bytes. -/
def flatSeed (byte : UInt8) : Seed := ⟨List.replicate 32 byte, by simp⟩

/-- A longest lifetime from `2^63` on is negative as an `i64`: the first key
    signs a token for a hundred seconds, and a rotation with a lead of ten
    seconds unpublishes it at once. -/
theorem token_orphaned :
    let env : IssuerEnv := ⟨twoKids, ⟨1, [1]⟩, ⟨10, 2 ^ 63⟩⟩
    let boot := KeyServiceOp.bootstrap ⟨1000⟩ (flatSeed 0)
    let rotate := KeyServiceOp.rotate ⟨1000⟩ none "admin" (flatSeed 1)
    let s₀ : KeyService := ⟨.fresh ⟨0⟩, none⟩
    ValidRun env.policy smallLead [boot, rotate] ∧ ¬ KeyLifecycle env s₀ [boot, rotate] := by
  intro env boot rotate s₀
  refine ⟨⟨by decide, by decide, by decide⟩, fun h => ?_⟩
  have htoken := h.token [boot] [rotate] ⟨1000⟩ ⟨1050⟩ "a" 100
    ⟨by simp, by decide, by decide, by decide⟩ ⟨by simp, by decide, by simp, by decide⟩
    (by decide) (by decide) (by decide) (by decide) (by decide)
  revert htoken
  decide

/-- The default policy: a boot, and a rotation a day ahead. -/
theorem key_lifecycle_default :
    KeyLifecycle ⟨twoKids, ⟨1, [1]⟩, {}⟩ ⟨.fresh ⟨0⟩, none⟩
      [.bootstrap ⟨1000⟩ (flatSeed 0), .rotate ⟨2000⟩ none "admin" (flatSeed 1)] :=
  key_lifecycle ⟨twoKids, ⟨1, [1]⟩, {}⟩ (by decide) (by decide) ⟨.fresh ⟨0⟩, none⟩ rfl _
    ⟨by decide, by decide, by decide⟩

end SessionBroker
