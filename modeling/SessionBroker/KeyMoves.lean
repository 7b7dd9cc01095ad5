/-
  What the issuer does to the table of signing keys, as moves on the table
  alone, and what a move does to one row.

  * `KeyMove`: the first key is created, a rotation dates the keys there are
    and adds one, a retired key is marked removed;
  * `KeyService.step_moves`: whatever an operation does to the database is a
    sequence of such moves, and a rotation that succeeds is one;
  * `Later` closes the moves under the passing of time; `Redated` is what it
    does to one row: its end only comes nearer, and never into the past.
-/
import SessionBroker.Issuer
import SessionBroker.Lib.Run

namespace SessionBroker

open Table Relation Runs

/-! ## One row -/

namespace SigningKeyRecord

variable {k k' : SigningKeyRecord} {t t' now : Timestamp}

/-- From `t` on the row is not published, by its own date. -/
def Ends (k : SigningKeyRecord) (t : Timestamp) : Prop := ∃ e, k.retireAt = some e ∧ e ≤ t

theorem Ends.mono (h : k.Ends t) (ht : t ≤ t') : k.Ends t' := by
  obtain ⟨e, he, hle⟩ := h
  exact ⟨e, he, hle.trans ht⟩

theorem published_iff_not_ends : k.Published t ↔ k.removedAt = none ∧ ¬ k.Ends t := by
  rw [published_iff]
  refine and_congr_right fun _ => ⟨?_, ?_⟩
  · rintro h ⟨e, he, hle⟩
    exact absurd (h e he) (not_lt.2 hle)
  · intro h e he
    exact not_le.1 fun hle => h ⟨e, he, hle⟩

theorem retired_iff : Db.retired now k = true ↔ k.removedAt = none ∧ k.Ends now := by
  cases h : k.retireAt <;> simp [Db.retired, Ends, h]

/-- What the two `UPDATE`s of `rotate_signing_key` do to a row. -/
def redate (now activateAt retireAt : Timestamp) (k : SigningKeyRecord) : SigningKeyRecord :=
  let dated := if k.outlives retireAt then { k with retireAt := some retireAt } else k
  if dated.outlives now && decide (activateAt < dated.activateAt) then
    { dated with retireAt := some now }
  else dated

/-- * Nothing but the date changes, and that only on a row not removed;
    * the date comes no later, and is one of three. -/
theorem redate_spec (now activateAt retireAt : Timestamp) (k : SigningKeyRecord) :
    ∃ e, redate now activateAt retireAt k = { k with retireAt := e } ∧
      (k.removedAt ≠ none → e = k.retireAt) ∧
      (e = k.retireAt ∨ e = some retireAt ∨ e = some now ∧ activateAt < k.activateAt) ∧
      ∀ e₀, k.retireAt = some e₀ → ∃ e₁, e = some e₁ ∧ e₁ ≤ e₀ := by
  unfold redate
  dsimp only
  by_cases hr : k.removedAt = none
  · by_cases h₁ : k.outlives retireAt = true
    · have hle : ∀ e₀, k.retireAt = some e₀ → retireAt ≤ e₀ := by
        intro e₀ he
        exact ((published_iff (t := retireAt)).1 h₁).2 e₀ he |>.le
      rw [if_pos h₁]
      split_ifs with h₂
      · rw [Bool.and_eq_true, decide_eq_true_eq] at h₂
        have hlt : now < retireAt := ((published_iff (t := now)).1 h₂.1).2 retireAt rfl
        exact ⟨_, rfl, fun h => absurd hr h, Or.inr (Or.inr ⟨rfl, h₂.2⟩),
          fun e₀ he => ⟨now, rfl, hlt.le.trans (hle e₀ he)⟩⟩
      · exact ⟨_, rfl, fun h => absurd hr h, Or.inr (Or.inl rfl),
          fun e₀ he => ⟨retireAt, rfl, hle e₀ he⟩⟩
    · rw [if_neg h₁]
      split_ifs with h₂
      · rw [Bool.and_eq_true, decide_eq_true_eq] at h₂
        refine ⟨_, rfl, fun h => absurd hr h, Or.inr (Or.inr ⟨rfl, h₂.2⟩), fun e₀ he => ⟨now, rfl, ?_⟩⟩
        exact (((published_iff (t := now)).1 h₂.1).2 e₀ he).le
      · exact ⟨k.retireAt, rfl, fun _ => rfl, Or.inl rfl, fun e₀ he => ⟨e₀, he, le_rfl⟩⟩
  · have hno : ∀ t, k.outlives t = false := fun t => by simp [outlives, hr]
    rw [if_neg (by simp [hno]), if_neg (by simp [hno])]
    exact ⟨k.retireAt, rfl, fun _ => rfl, Or.inl rfl, fun e₀ he => ⟨e₀, he, le_rfl⟩⟩

end SigningKeyRecord

open SigningKeyRecord

theorem retireBefore_eq (now activateAt retireAt : Timestamp) (keys : List SigningKeyRecord) :
    retireBefore now activateAt retireAt keys = keys.map (redate now activateAt retireAt) := by
  simp only [retireBefore, updateWhere, List.map_map]
  rfl

namespace SigningKeyRecord

variable {k : SigningKeyRecord}

theorem redate_removedAt (now activateAt retireAt : Timestamp) (k : SigningKeyRecord) :
    (redate now activateAt retireAt k).removedAt = k.removedAt := by
  obtain ⟨e, he, -⟩ := redate_spec now activateAt retireAt k
  rw [he]

theorem redate_activateAt (now activateAt retireAt : Timestamp) (k : SigningKeyRecord) :
    (redate now activateAt retireAt k).activateAt = k.activateAt := by
  obtain ⟨e, he, -⟩ := redate_spec now activateAt retireAt k
  rw [he]

@[simp] theorem redate_kid (now activateAt retireAt : Timestamp) (k : SigningKeyRecord) :
    (redate now activateAt retireAt k).kid = k.kid := by
  obtain ⟨e, he, -⟩ := redate_spec now activateAt retireAt k
  rw [he]

/-- A date comes no later. -/
theorem redate_sooner (now activateAt retireAt : Timestamp) {e : Timestamp}
    (h : k.retireAt = some e) :
    ∃ e', (redate now activateAt retireAt k).retireAt = some e' ∧ e' ≤ e := by
  obtain ⟨e₀, he, -, -, hs⟩ := redate_spec now activateAt retireAt k
  rw [he]
  exact hs e h

theorem redate_age (now activateAt retireAt : Timestamp) (k : SigningKeyRecord) (i : ℕ) :
    age (redate now activateAt retireAt k, i) = age (k, i) := by
  obtain ⟨e, he, -⟩ := redate_spec now activateAt retireAt k
  rw [he]
  rfl

/-- A row not removed has a date afterwards. -/
theorem redate_dated (now activateAt retireAt : Timestamp) (h : k.removedAt = none) :
    ∃ e, (redate now activateAt retireAt k).retireAt = some e ∧ e ≤ retireAt ∧
      (activateAt < k.activateAt → e ≤ now) := by
  have hm : redate now activateAt retireAt k ∈ retireBefore now activateAt retireAt [k] := by
    simp [retireBefore_eq]
  obtain ⟨e, he, hle, hnow⟩ := retireBefore_dated hm ((redate_removedAt ..).trans h)
  refine ⟨e, he, hle, fun ha => hnow ?_⟩
  rwa [redate_activateAt]

/-- Afterwards no key is published without an end. -/
theorem redate_open (now activateAt retireAt : Timestamp) (keys : List SigningKeyRecord) :
    (keys.map (redate now activateAt retireAt)).filter
      (fun k => k.removedAt = none ∧ k.retireAt = none) = [] := by
  rw [List.filter_eq_nil_iff]
  intro k hk
  obtain ⟨k, -, rfl⟩ := List.mem_map.1 hk
  simp only [decide_eq_true_eq, not_and]
  intro hr he
  rw [redate_removedAt] at hr
  obtain ⟨e, he', -⟩ := redate_dated now activateAt retireAt hr
  rw [he] at he'
  cases he'

/-- A key that would activate after the new one ends at once. -/
theorem redate_ends {now activateAt : Timestamp} (retireAt : Timestamp)
    (hremoved : k.removedAt ≠ none → k.Ends now) (h : activateAt < k.activateAt) :
    (redate now activateAt retireAt k).Ends now := by
  by_cases hr : k.removedAt = none
  · obtain ⟨e, he, -, hnow⟩ := redate_dated now activateAt retireAt hr
    exact ⟨e, he, hnow h⟩
  · obtain ⟨e, he, hle⟩ := hremoved hr
    obtain ⟨e', he', hle'⟩ := redate_sooner now activateAt retireAt he
    exact ⟨e', he', hle'.trans hle⟩

end SigningKeyRecord

/-! ## Moves -/

/-- The date a rotation gives the keys before the new one. -/
def KeyPolicy.retireAt (policy : KeyPolicy) (now : Timestamp) (lead : ℕ) : Timestamp :=
  if lead = 0 then now else (now.plusSecs lead).plusSecs policy.keepSecs

/-- The row of a new key. -/
def IssuerEnv.newRow (env : IssuerEnv) (seed : Seed) (now activateAt : Timestamp) :
    SigningKeyRecord :=
  let key := env.scheme.generate seed
  ⟨key.kid, key.publicKey, env.ring.seal key.seed (signingSeedContext key.kid), now, activateAt,
    none, none⟩

/-- The table after a rotation with this lead. -/
def IssuerEnv.rotated (env : IssuerEnv) (keys : List SigningKeyRecord) (now : Timestamp)
    (lead : ℕ) (seed : Seed) : List SigningKeyRecord :=
  keys.map (redate now (now.plusSecs lead) (env.policy.retireAt now lead)) ++
    [env.newRow seed now (now.plusSecs lead)]

/-- The `UPDATE` of `remove_retired_signing_key`. -/
def removeKid (now : Timestamp) (kid : String) (keys : List SigningKeyRecord) :
    List SigningKeyRecord :=
  updateWhere (fun k => decide (k.kid = kid) && Db.retired now k)
    (fun k => { k with removedAt := some now }) keys

/-- What happens to the table at `now`; `ok` says which leads may occur. -/
inductive KeyMove (env : IssuerEnv) (ok : ℕ → Prop) (now : Timestamp) :
    List SigningKeyRecord → List SigningKeyRecord → Prop
  | create (seed : Seed) : KeyMove env ok now [] [env.newRow seed now now]
  | rotate (keys : List SigningKeyRecord) (lead : ℕ) (seed : Seed) (h : ok lead)
      (hnew : ∀ k ∈ keys, k.kid ≠ (env.newRow seed now now).kid) :
      KeyMove env ok now keys (env.rotated keys now lead seed)
  | remove (keys : List SigningKeyRecord) (kid : String) :
      KeyMove env ok now keys (removeKid now kid keys)

section
variable {env : IssuerEnv} {db db' : Db} {now : Timestamp} {ok : ℕ → Prop}

theorem write_eq_some {write : AdminWrite} {event : AuditRow} {applied : Bool}
    (h : env.write db write event = some (db', applied)) :
    ∃ db₁, db.applyAdmin env.ring write = some (db₁, applied) ∧ db'.signingKey = db₁.signingKey := by
  obtain ⟨⟨db₁, b⟩, hb, he⟩ := Option.map_eq_some_iff.1 h
  obtain ⟨rfl, rfl⟩ := Prod.mk.inj he
  exact ⟨db₁, hb, rfl⟩

/-- **A rotation that succeeds.** -/
theorem rotate_eq_some {activateInSecs : Option ℕ} {actorId : String} {seed : Seed}
    {rotation : Rotation} (h : env.rotate db now activateInSecs actorId seed = some (db', rotation)) :
    let lead := activateInSecs.getD env.policy.publishLeadSecs
    (∀ k ∈ db.signingKey, k.kid ≠ (env.newRow seed now now).kid) ∧
      db'.signingKey = env.rotated db.signingKey now lead seed ∧
      rotation = ⟨(env.newRow seed now now).kid, (now.plusSecs lead).secs,
        (env.policy.retireAt now lead).secs, decide (lead = 0)⟩ := by
  intro lead
  obtain ⟨⟨db₁, applied⟩, hw, he⟩ := Option.map_eq_some_iff.1 h
  obtain ⟨rfl, rfl⟩ := Prod.mk.inj he
  obtain ⟨db₂, ha, hk⟩ := write_eq_some hw
  obtain ⟨db₃, hi, he⟩ := Option.map_eq_some_iff.1 ha
  cases he
  obtain ⟨keys, hins, rfl⟩ := Option.map_eq_some_iff.1 hi
  obtain ⟨hnew, rfl⟩ := insertRow_eq_some.1 hins
  have hretire : (if decide (lead = 0) = true then now
      else (now.plusSecs lead).plusSecs env.policy.keepSecs) = env.policy.retireAt now lead := by
    simp [KeyPolicy.retireAt]
  have hrows : retireBefore now (now.plusSecs lead) (if decide (lead = 0) = true then now
      else (now.plusSecs lead).plusSecs env.policy.keepSecs) db.signingKey =
      db.signingKey.map (redate now (now.plusSecs lead) (env.policy.retireAt now lead)) := by
    rw [hretire, retireBefore_eq]
  refine ⟨fun k hm => ?_, ?_, ?_⟩
  · have hm' := hnew (redate now (now.plusSecs lead) (env.policy.retireAt now lead) k)
    dsimp only at hm'
    rw [hrows, redate_kid] at hm'
    exact hm' (List.mem_map_of_mem hm)
  · rw [hk]
    dsimp only
    rw [hrows]
    rfl
  · rw [← hretire]
    rfl

/-- A rotation to a new key succeeds. -/
theorem rotate_isSome (activateInSecs : Option ℕ) (actorId : String) {seed : Seed}
    (hnew : ∀ k ∈ db.signingKey, k.kid ≠ (env.newRow seed now now).kid) :
    (env.rotate db now activateInSecs actorId seed).isSome := by
  unfold IssuerEnv.rotate
  simp only [IssuerEnv.write, Db.applyAudited, Db.applyAdmin, Db.rotateSigningKey,
    Db.insertSigningKey, Option.isSome_map, insertRow_isSome, retireBefore_eq]
  intro k hk
  obtain ⟨k₀, hk₀, rfl⟩ := List.mem_map.1 hk
  rw [redate_kid]
  exact hnew k₀ hk₀

theorem listSigningKeys_isEmpty : db.listSigningKeys.isEmpty = true ↔ db.signingKey = [] := by
  rw [List.isEmpty_iff_length_eq_zero, Db.listSigningKeys, List.length_map, Latest.newestFirst,
    List.length_insertionSort, List.length_zipIdx, List.length_eq_zero_iff]

theorem bootstrap_eq_some {seed : Seed} {cache : KeyCache}
    (h : env.bootstrap db now seed = some (db', cache)) : cache = env.reload db' now ∧
      ((db.signingKey = [] ∧ db'.signingKey = [env.newRow seed now now]) ∨
        db.signingKey ≠ [] ∧ db' = db) := by
  unfold IssuerEnv.bootstrap at h
  split_ifs at h with he
  · rw [listSigningKeys_isEmpty] at he
    obtain ⟨⟨db₁, applied⟩, hw, heq⟩ := Option.map_eq_some_iff.1 h
    cases heq
    obtain ⟨db₂, ha, hk⟩ := write_eq_some hw
    obtain ⟨db₃, hi, heq⟩ := Option.map_eq_some_iff.1 ha
    cases heq
    obtain ⟨keys, hins, rfl⟩ := Option.map_eq_some_iff.1 hi
    obtain ⟨-, rfl⟩ := insertRow_eq_some.1 hins
    refine ⟨rfl, Or.inl ⟨he, ?_⟩⟩
    rw [hk, he]
    rfl
  · cases h
    exact ⟨rfl, Or.inr ⟨fun hn => he (listSigningKeys_isEmpty.2 hn), rfl⟩⟩

theorem bootstrap_isSome (env : IssuerEnv) (db : Db) (now : Timestamp) (seed : Seed) :
    (env.bootstrap db now seed).isSome := by
  unfold IssuerEnv.bootstrap
  split_ifs with he
  · have hempty := listSigningKeys_isEmpty.1 he
    simp [IssuerEnv.write, Db.applyAudited, Db.applyAdmin, Db.insertSigningKey, hempty, insertRow]
  · rfl

variable (env) in
theorem removeDue_keys (now : Timestamp) (r : Db × ℕ) (kid : String) :
    (env.removeDue now r kid).1.signingKey = removeKid now kid r.1.signingKey := by
  have hwrite : ∀ db' applied event,
      env.write r.1 (.removeRetiredSigningKey kid now) event = some (db', applied) →
      db'.signingKey = removeKid now kid r.1.signingKey := by
    intro db' applied event h
    obtain ⟨db₁, ha, hk⟩ := write_eq_some h
    cases ha
    exact hk
  unfold IssuerEnv.removeDue
  split
  · rename_i h
    exact hwrite _ _ _ h
  · rename_i h
    exact hwrite _ _ _ h
  · rename_i h
    cases h

theorem pruneRetired_moves (db : Db) (now : Timestamp) :
    ReflTransGen (KeyMove env ok now) db.signingKey (env.pruneRetired db now).1.signingKey := by
  unfold IssuerEnv.pruneRetired
  generalize db.retiredSigningKeysDue now = due
  generalize 0 = n
  induction due generalizing db n with
  | nil => exact .refl
  | cons kid due ih =>
    refine .head (KeyMove.remove _ kid) ?_
    rw [List.foldl_cons, ← removeDue_keys env now (db, n) kid]
    exact ih _ _

/-- **What an operation does to the table.** -/
theorem KeyService.step_moves (s : KeyService) (op : KeyServiceOp)
    (hok : ∀ lead ∈ op.lead? env.policy, ok lead) :
    ReflTransGen (KeyMove env ok op.now) s.db.signingKey (s.step env op).db.signingKey := by
  have hrotate : ∀ now activateInSecs actorId seed db' rotation,
      env.rotate s.db now activateInSecs actorId seed = some (db', rotation) →
      ok (activateInSecs.getD env.policy.publishLeadSecs) →
      ReflTransGen (KeyMove env ok now) s.db.signingKey db'.signingKey := by
    intro now activateInSecs actorId seed db' rotation h hlead
    obtain ⟨hnew, hk, -⟩ := rotate_eq_some h
    rw [hk]
    exact .single (.rotate _ _ _ hlead hnew)
  cases op with
  | bootstrap now seed =>
    unfold KeyService.step
    dsimp only
    split
    · rename_i db cache h
      obtain ⟨-, ⟨he, hk⟩ | ⟨-, rfl⟩⟩ := bootstrap_eq_some h
      · rw [he, hk]
        exact .single (.create seed)
      · exact .refl
    · exact .refl
  | rotate now activateInSecs actorId seed =>
    unfold KeyService.step
    dsimp only
    split
    · rename_i db rotation h
      exact hrotate _ _ _ _ _ _ h (hok _ rfl)
    · exact .refl
  | command now immediate seed =>
    unfold KeyService.step
    dsimp only
    split
    · rename_i db rotation h
      refine hrotate _ _ _ _ _ _ h ?_
      have := hok _ rfl
      cases immediate <;> exact this
    · exact .refl
  | pruneRetired now => exact pruneRetired_moves s.db now
  | reload now => exact .refl
  | withKeys now => exact .refl

end

/-! ## Time passing -/

/-- The clock moves on, and there may be a move. -/
def KeyTick (env : IssuerEnv) (ok : ℕ → Prop)
    (a b : Timestamp × List SigningKeyRecord) : Prop :=
  a.1 ≤ b.1 ∧ b.1.IsI64 ∧ (b.2 = a.2 ∨ KeyMove env ok b.1 a.2 b.2)

/-- What may have become of the table. -/
abbrev Later (env : IssuerEnv) (ok : ℕ → Prop) := ReflTransGen (KeyTick env ok)

section
variable {env : IssuerEnv} {ok : ℕ → Prop}

theorem Later.wait {t t' : Timestamp} {keys : List SigningKeyRecord} (h : t ≤ t')
    (hi : t'.IsI64) : Later env ok (t, keys) (t', keys) :=
  .single ⟨h, hi, Or.inl rfl⟩

theorem Later.of_moves {t : Timestamp} {keys keys' : List SigningKeyRecord} (hi : t.IsI64)
    (h : ReflTransGen (KeyMove env ok t) keys keys') : Later env ok (t, keys) (t, keys') :=
  h.lift (fun keys => (t, keys)) fun _ _ h => ⟨le_rfl, hi, Or.inr h⟩

theorem Later.le {a b : Timestamp × List SigningKeyRecord} (h : Later env ok a b) : a.1 ≤ b.1 := by
  induction h with
  | refl => exact le_rfl
  | tail _ h ih => exact ih.trans h.1

/-- The operations of a run, between two readings of the clock. -/
structure KeyServiceOp.Between (policy : KeyPolicy) (ok : ℕ → Prop) (t t' : Timestamp)
    (ops : List KeyServiceOp) : Prop where
  sorted : (ops.map now).Pairwise (· ≤ ·)
  after : ∀ op ∈ ops, t ≤ op.now
  before : ∀ op ∈ ops, op.now ≤ t'
  lead : ∀ op ∈ ops, ∀ lead ∈ op.lead? policy, ok lead

/-- **A run is an evolution of the table.** -/
theorem KeyService.run_later {t t' : Timestamp} (ht : t ≤ t') (hi : t.IsI64) (hi' : t'.IsI64)
    (s : KeyService) (ops : List KeyServiceOp) (h : KeyServiceOp.Between env.policy ok t t' ops) :
    Later env ok (t, s.db.signingKey) (t', (run (KeyService.step env) s ops).db.signingKey) := by
  induction ops using List.reverseRecOn generalizing t' with
  | nil => exact .wait ht hi'
  | append_singleton ops op ih =>
    rw [run_concat]
    have hop : op ∈ ops ++ [op] := List.mem_append_right _ (List.mem_singleton_self _)
    have hsorted := h.sorted
    rw [List.map_append, List.pairwise_append] at hsorted
    have hopI : op.now.IsI64 :=
      ⟨le_trans hi.1 (h.after op hop), lt_of_le_of_lt (h.before op hop) hi'.2⟩
    have hbefore : Later env ok (t, s.db.signingKey)
        (op.now, (run (KeyService.step env) s ops).db.signingKey) := by
      refine ih (h.after op hop) hopI ⟨hsorted.1, fun o ho => h.after o (List.mem_append_left _ ho),
        fun o ho => ?_, fun o ho => h.lead o (List.mem_append_left _ ho)⟩
      exact hsorted.2.2 _ (List.mem_map_of_mem ho) _ (by simp)
    exact (hbefore.trans (Later.of_moves hopI (step_moves _ op (h.lead op hop)))).trans
      (Later.wait (h.before op hop) hi')

/-- What became of a row. -/
structure Redated (t : Timestamp) (k k' : SigningKeyRecord) : Prop where
  kid : k'.kid = k.kid
  publicKey : k'.publicKey = k.publicKey
  seedSealed : k'.seedSealed = k.seedSealed
  createdAt : k'.createdAt = k.createdAt
  activateAt : k'.activateAt = k.activateAt
  sooner : ∀ e, k.retireAt = some e → ∃ e', k'.retireAt = some e' ∧ e' ≤ e
  future : k'.retireAt = k.retireAt ∨ ∃ e', k'.retireAt = some e' ∧ t ≤ e'
  removed : k.removedAt ≠ none → k'.removedAt = k.removedAt ∧ k'.retireAt = k.retireAt

namespace Redated

variable {t t' : Timestamp} {k k' k'' : SigningKeyRecord}

theorem refl (t : Timestamp) (k : SigningKeyRecord) : Redated t k k :=
  ⟨rfl, rfl, rfl, rfl, rfl, fun e he => ⟨e, he, le_rfl⟩, Or.inl rfl, fun _ => ⟨rfl, rfl⟩⟩

theorem trans (h : Redated t k k') (h' : Redated t' k' k'') (ht : t ≤ t') : Redated t k k'' where
  kid := h'.kid.trans h.kid
  publicKey := h'.publicKey.trans h.publicKey
  seedSealed := h'.seedSealed.trans h.seedSealed
  createdAt := h'.createdAt.trans h.createdAt
  activateAt := h'.activateAt.trans h.activateAt
  sooner := fun e he => by
    obtain ⟨e', he', hle⟩ := h.sooner e he
    obtain ⟨e'', he'', hle'⟩ := h'.sooner e' he'
    exact ⟨e'', he'', hle'.trans hle⟩
  future := by
    rcases h'.future with hf | ⟨e, he, hle⟩
    · rw [hf]
      exact h.future
    · exact Or.inr ⟨e, he, ht.trans hle⟩
  removed := fun hr => by
    obtain ⟨h₁, h₂⟩ := h.removed hr
    obtain ⟨h₃, h₄⟩ := h'.removed (by rwa [h₁])
    exact ⟨h₃.trans h₁, h₄.trans h₂⟩

theorem ends (h : Redated t k k') (he : k.Ends t') : k'.Ends t' := by
  obtain ⟨e, he, hle⟩ := he
  obtain ⟨e', he', hle'⟩ := h.sooner e he
  exact ⟨e', he', hle'.trans hle⟩

theorem age (h : Redated t k k') (i : ℕ) : SessionBroker.age (k', i) = SessionBroker.age (k, i) := by
  rw [SessionBroker.age, SessionBroker.age, h.activateAt, h.createdAt]

end Redated

/-- No lead takes an activation into the past. -/
def Forward (ok : ℕ → Prop) : Prop := ∀ lead, ok lead → asI64 lead = lead

theorem plusSecs_ge {t : Timestamp} {secs : ℕ} (hi : t.IsI64) (h : asI64 secs = secs) :
    t ≤ t.plusSecs secs := by
  have := hi.2
  simp only [Timestamp.le_iff, Timestamp.plusSecs, h]
  omega

theorem plusSecs_zero {t : Timestamp} (hi : t.IsI64) : t.plusSecs 0 = t := by
  have hz : asI64 0 = 0 := by decide
  obtain ⟨h₁, h₂⟩ := hi
  ext
  simp only [Timestamp.plusSecs, hz]
  omega

/-- A date set by a rotation is not in the past. -/
theorem retireAt_ge {now : Timestamp} {lead : ℕ} (policy : KeyPolicy) (hi : now.IsI64)
    (hl : asI64 lead = lead) (hk : asI64 policy.keepSecs = policy.keepSecs) :
    now ≤ policy.retireAt now lead := by
  unfold KeyPolicy.retireAt
  split_ifs
  · exact le_rfl
  · have := hi.2
    simp only [Timestamp.le_iff, Timestamp.plusSecs, hl, hk]
    omega

/-- **One move on one row.**  Rows stay where they are. -/
theorem KeyMove.row (hf : Forward ok) (hk : asI64 env.policy.keepSecs = env.policy.keepSecs)
    {now : Timestamp} (hi : now.IsI64) {keys keys' : List SigningKeyRecord}
    (h : KeyMove env ok now keys keys') {i : ℕ} {k : SigningKeyRecord} (hki : keys[i]? = some k) :
    ∃ k', keys'[i]? = some k' ∧ Redated now k k' := by
  cases h with
  | create seed => simp at hki
  | rotate _ lead seed hl hnew =>
    obtain ⟨e, he, hrem, hdate, hsooner⟩ :=
      redate_spec now (now.plusSecs lead) (env.policy.retireAt now lead) k
    refine ⟨{ k with retireAt := e }, ?_, rfl, rfl, rfl, rfl, rfl, hsooner, ?_, fun hr => ⟨rfl, hrem hr⟩⟩
    · rw [IssuerEnv.rotated, List.getElem?_append_left, List.getElem?_map, hki, Option.map_some, he]
      simpa using (List.getElem?_eq_some_iff.1 hki).1
    · rcases hdate with h | h | ⟨h, -⟩
      · exact Or.inl h
      · exact Or.inr ⟨_, h, retireAt_ge env.policy hi (hf lead hl) hk⟩
      · exact Or.inr ⟨_, h, le_rfl⟩
  | remove _ kid =>
    refine ⟨_, by rw [removeKid, updateWhere, List.getElem?_map, hki, Option.map_some], ?_⟩
    split_ifs with hr
    · rw [Bool.and_eq_true, retired_iff] at hr
      exact ⟨rfl, rfl, rfl, rfl, rfl, fun e he => ⟨e, he, le_rfl⟩, Or.inl rfl,
        fun h => absurd hr.2.1 h⟩
    · exact Redated.refl now k

/-- **Over time.** -/
theorem Later.row (hf : Forward ok) (hk : asI64 env.policy.keepSecs = env.policy.keepSecs)
    {a b : Timestamp × List SigningKeyRecord} (h : Later env ok a b) {i : ℕ}
    {k : SigningKeyRecord} (hki : a.2[i]? = some k) :
    ∃ k', b.2[i]? = some k' ∧ Redated a.1 k k' := by
  induction h with
  | refl => exact ⟨k, hki, .refl _ _⟩
  | tail hl hstep ih =>
    obtain ⟨k', hk', hr⟩ := ih
    obtain ⟨ht, hi, hsame | hmove⟩ := hstep
    · exact ⟨k', by rw [hsame]; exact hk', hr⟩
    · obtain ⟨k'', hk'', hr'⟩ := hmove.row hf hk hi hk'
      exact ⟨k'', hk'', hr.trans hr' ((Later.le hl).trans ht)⟩

end

end SessionBroker
