/-
  The signing keys as an administrator sees them (`list_signing_keys`,
  `http/admin/identity.rs`), beside the keys as the issuer holds them.

  * the listing goes through the rows newest first and calls the first live one
    `signing`.  It never sees a seed;
  * the issuer signs with the newest live key whose seed it could open;
  * `key_view_iff`: the two agree iff the newest live key, where there is one,
    has a usable seed.
-/
import SessionBroker.Lifecycle
import SessionBroker.Lib.Base64

namespace SessionBroker

open Runs Table Relation Latest SigningKeyRecord

/-! ## The listing -/

inductive KeyState where
  | pending
  | signing
  | published
  | retired
  | removed
deriving DecidableEq, Repr

structure SigningKeyView where
  kid : String
  /-- The public key, base64url. -/
  x : String
  createdAt : ℤ
  activateAt : ℤ
  retireAt : Option ℤ
  removedAt : Option ℤ
  state : KeyState
deriving DecidableEq, Repr

/-- The state of a row, and whether the key that signs has been named. -/
def SigningKeyRecord.viewState (now : Timestamp) (signingTaken : Bool) (r : SigningKeyRecord) :
    KeyState × Bool :=
  let published := decide (r.removedAt = none) && r.retireAt.all fun at_ => decide (now < at_)
  if r.removedAt ≠ none then (.removed, signingTaken)
  else if published = false then (.retired, signingTaken)
  else if now < r.activateAt then (.pending, signingTaken)
  else if signingTaken = false then (.signing, true)
  else (.published, signingTaken)

/-- The views of the rows, with `signing_taken` on the way. -/
def signingKeyViews (now : Timestamp) : Bool → List SigningKeyRecord → List SigningKeyView
  | _, [] => []
  | signingTaken, r :: rows =>
    let (state, signingTaken) := r.viewState now signingTaken
    ⟨r.kid, .ofList (Base64.encode r.publicKey), r.createdAt.secs, r.activateAt.secs,
      r.retireAt.map (·.secs), r.removedAt.map (·.secs), state⟩ :: signingKeyViews now signingTaken rows

/-- What `list_signing_keys` answers. -/
def Db.signingKeyViews (db : Db) (now : Timestamp) : List SigningKeyView :=
  SessionBroker.signingKeyViews now false db.listSigningKeys

/-- The keys reported as signing. -/
def reportedSigning (views : List SigningKeyView) : List String :=
  (views.filter fun v => v.state = .signing).map (·.kid)

/-- **The view tells the truth**: it reports the key that signs, if one does,
    and no other. -/
def ViewTruthful (db : Db) (cache : KeyCache) (now : Timestamp) : Prop :=
  reportedSigning (db.signingKeyViews now) = ((cache.signing now).map (·.1)).toList

instance {db : Db} {cache : KeyCache} {now : Timestamp} : Decidable (ViewTruthful db cache now) :=
  inferInstanceAs (Decidable (_ = _))

/-- The newest live key. -/
structure NewestLive (db : Db) (now : Timestamp) (r : KeyedRow) : Prop where
  mem : r ∈ db.signingKey.zipIdx
  live : r.1.Live now
  newest : ∀ r' ∈ db.signingKey.zipIdx, r'.1.Live now → age r' ≤ age r

/-- The newest live key, where there is one, has a usable seed. -/
def NewestUsable (scheme : KeyScheme) (ring : KeyRing) (db : Db) (now : Timestamp) : Prop :=
  ∀ r, NewestLive db now r → (usableSeed scheme ring r.1).isSome

/-- Other sealed seeds in the same rows. -/
def Db.withSeeds (seeds : SigningKeyRecord → Sealed) (db : Db) : Db :=
  { db with signingKey := db.signingKey.map fun k => { k with seedSealed := seeds k } }

/-! ## What the listing reports -/

section
variable {now : Timestamp} {signingTaken : Bool} {r : SigningKeyRecord}

theorem live_iff : r.Live now ↔ (decide (r.activateAt ≤ now) && r.outlives now) = true := by
  rw [Bool.and_eq_true, decide_eq_true_eq]
  rfl

theorem viewState_live (h : r.Live now) :
    r.viewState now signingTaken = if signingTaken then (.published, true) else (.signing, true) := by
  obtain ⟨hactive, hpublished⟩ := h
  have hall : (decide (r.removedAt = none) && r.retireAt.all fun at_ => decide (now < at_)) = true :=
    hpublished
  have hremoved : ¬ r.removedAt ≠ none := not_not.2 (published_iff.1 hpublished).1
  unfold SigningKeyRecord.viewState
  rw [hall, if_neg hremoved, if_neg (by simp), if_neg (not_lt.2 hactive)]
  cases signingTaken <;> rfl

theorem viewState_not_live (signingTaken : Bool) (h : ¬ r.Live now) :
    (r.viewState now signingTaken).1 ≠ .signing ∧ (r.viewState now signingTaken).2 = signingTaken := by
  unfold SigningKeyRecord.viewState
  dsimp only
  split_ifs with hremoved hretired hpending htaken
  · simp
  · simp
  · simp
  · exact absurd ⟨not_lt.1 hpending, Bool.eq_true_of_not_eq_false hretired⟩ h
  · simp

/-- **The first live row** is the one reported. -/
theorem reportedSigning_views (now : Timestamp) (signingTaken : Bool) (rows : List SigningKeyRecord) :
    reportedSigning (signingKeyViews now signingTaken rows) =
      if signingTaken then [] else
        (rows.findSome? fun r =>
          if decide (r.activateAt ≤ now) && r.outlives now then some r.kid else none).toList := by
  induction rows generalizing signingTaken with
  | nil => cases signingTaken <;> rfl
  | cons r rows ih =>
    by_cases hlive : r.Live now
    · have hb := live_iff.1 hlive
      simp only [signingKeyViews, viewState_live hlive, List.findSome?_cons, hb, if_true]
      cases signingTaken with
      | true => simpa [reportedSigning] using ih true
      | false => simpa [reportedSigning] using ih true
    · obtain ⟨hstate, htaken⟩ := viewState_not_live signingTaken hlive
      have hb : (decide (r.activateAt ≤ now) && r.outlives now) = false :=
        Bool.eq_false_iff.2 fun h => hlive (live_iff.2 h)
      have hskip : reportedSigning (signingKeyViews now signingTaken (r :: rows)) =
          reportedSigning (signingKeyViews now signingTaken rows) := by
        simp [reportedSigning, signingKeyViews, hstate, htaken]
      rw [hskip, ih signingTaken]
      simp only [List.findSome?_cons, hb, Bool.false_eq_true, if_false]

/-- The newest live key is the one reported. -/
theorem reportedSigning_eq (db : Db) (now : Timestamp) : reportedSigning (db.signingKeyViews now) =
    ((newestFirst age db.signingKey.zipIdx).findSome? fun r =>
      if decide (r.1.activateAt ≤ now) && r.1.outlives now then some r.1.kid else none).toList := by
  rw [Db.signingKeyViews, reportedSigning_views, Db.listSigningKeys, List.findSome?_map]
  rfl

end

/-! ## The two views -/

section
variable {scheme : KeyScheme} {ring : KeyRing} {db : Db} {loaded now : Timestamp} {r r' : KeyedRow}

theorem eq_of_age (hr : r ∈ db.signingKey.zipIdx) (hr' : r' ∈ db.signingKey.zipIdx)
    (h : age r' = age r) : r' = r := by
  have hidx : r'.2 = r.2 := congrArg (fun a => (ofLex (ofLex a).2).2) h
  obtain ⟨k, i⟩ := r
  obtain ⟨k', i'⟩ := r'
  obtain rfl : i' = i := hidx
  rw [List.mk_mem_zipIdx_iff_getElem?] at hr hr'
  rw [hr] at hr'
  cases hr'
  rfl

/-- What the listing reports, where some key is live. -/
theorem NewestLive.reported (h : NewestLive db now r) :
    reportedSigning (db.signingKeyViews now) = [r.1.kid] := by
  rw [reportedSigning_eq, findSome?_newestFirst_eq h.mem (if_pos (live_iff.1 h.live))]
  · rfl
  · intro r' hr' hs
    refine h.newest r' hr' (live_iff.2 ?_)
    by_contra hnot
    rw [if_neg hnot] at hs
    cases hs
  · exact fun r' hr' he => eq_of_age h.mem hr' he

theorem reported_of_none (h : ∀ k ∈ db.signingKey, ¬ k.Live now) :
    reportedSigning (db.signingKeyViews now) = [] := by
  have hnone : (newestFirst age db.signingKey.zipIdx).findSome? (fun r =>
      if decide (r.1.activateAt ≤ now) && r.1.outlives now then some r.1.kid else none) = none := by
    rw [List.findSome?_eq_none_iff]
    intro r hr
    rw [mem_newestFirst] at hr
    exact if_neg fun hlive => h r.1 (mem_zipIdx_fst.1 ⟨r, hr, rfl⟩) (live_iff.2 hlive)
  rw [reportedSigning_eq, hnone]
  rfl

/-- What the issuer signs with, where the newest live key has a usable seed. -/
theorem NewestLive.signs (h : NewestLive db now r) {seed : Bytes}
    (hseed : usableSeed scheme ring r.1 = some seed) :
    (db.freshCache scheme ring loaded).signing now = some (r.1.kid, seed) := by
  have hkept : ∀ r' ∈ db.signingKey.zipIdx.filter (fun r => r.1.removedAt = none),
      r' ∈ db.signingKey.zipIdx := fun r' hr' => (List.mem_filter.1 hr').1
  rw [signing_freshCache]
  refine findSome?_newestFirst_eq (a := r) ?_ ?_ ?_ ?_
  · exact List.mem_filter.2 ⟨h.mem, by simpa using (published_iff.1 h.live.2).1⟩
  · rw [if_pos (live_iff.1 h.live), hseed]
    rfl
  · intro r' hr' hs
    refine h.newest r' (hkept r' hr') (live_iff.2 ?_)
    by_contra hnot
    rw [if_neg hnot] at hs
    cases hs
  · exact fun r' hr' he => eq_of_age h.mem (hkept r' hr') he

/-- A key that signs is live and has a usable seed. -/
theorem live_of_signing {signer : String × Bytes}
    (h : (db.freshCache scheme ring loaded).signing now = some signer) :
    ∃ k ∈ db.signingKey, k.kid = signer.1 ∧ k.Live now ∧ (usableSeed scheme ring k).isSome := by
  rw [signing_freshCache] at h
  obtain ⟨r, hr, hf, -⟩ := findSome?_newestFirst h
  split_ifs at hf with hlive
  obtain ⟨seed', hs, he⟩ := Option.map_eq_some_iff.1 hf
  cases he
  exact ⟨r.1, mem_zipIdx_fst.1 ⟨r, (List.mem_filter.1 hr).1, rfl⟩, rfl, live_iff.2 hlive, by simp [hs]⟩

/-- **When the view is right**, with one row a kid. -/
theorem viewTruthful_iff (hkid : UniqueOn (·.kid) db.signingKey) :
    ViewTruthful db (db.freshCache scheme ring loaded) now ↔ NewestUsable scheme ring db now := by
  unfold ViewTruthful
  constructor
  · intro h r hr
    rw [hr.reported] at h
    cases hs : (db.freshCache scheme ring loaded).signing now with
    | none =>
      rw [hs] at h
      cases h
    | some signer =>
      rw [hs] at h
      obtain ⟨k, hk, hkk, -, hseed⟩ := live_of_signing hs
      have hkid' : r.1.kid = signer.1 := List.singleton_inj.1 h
      obtain rfl := hkid.eq_of_key hk (mem_zipIdx_fst.1 ⟨r, hr.mem, rfl⟩) (hkk.trans hkid'.symm)
      exact hseed
  · intro h
    by_cases hlive : ∃ r ∈ db.signingKey.zipIdx, r.1.Live now
    · obtain ⟨r, hr, hl, hmax⟩ := exists_latest age hlive
      have hnewest : NewestLive db now r := ⟨hr, hl, hmax⟩
      obtain ⟨seed, hseed⟩ := Option.isSome_iff_exists.1 (h r hnewest)
      rw [hnewest.reported, hnewest.signs hseed]
      rfl
    · have hnone : ∀ k ∈ db.signingKey, ¬ k.Live now := by
        intro k hk hl
        obtain ⟨r, hr, rfl⟩ := mem_zipIdx_fst.2 hk
        exact hlive ⟨r, hr, hl⟩
      cases hs : (db.freshCache scheme ring loaded).signing now with
      | none =>
        rw [reported_of_none hnone]
        rfl
      | some signer =>
        obtain ⟨k, hk, -, hl, -⟩ := live_of_signing hs
        exact absurd hl (hnone k hk)

end

/-! ## Over the life of the keys -/

theorem run_uniqueKid (env : IssuerEnv) (start : Timestamp) (ops : List KeyServiceOp) :
    UniqueOn (·.kid) (run (KeyService.step env) ⟨.fresh start, none⟩ ops).db.signingKey := by
  induction ops using List.reverseRecOn with
  | nil => exact List.nodup_nil
  | append_singleton ops op ih =>
    rw [run_concat]
    have hany : ∀ lead ∈ op.lead? env.policy, (fun _ : ℕ => True) lead := fun _ _ => trivial
    exact moves_invariant (fun keys => (keys.map (·.kid)).Nodup) (fun _ _ => KeyMove.kids)
      (KeyService.step_moves _ op hany) ih

/-- **The view of an administrator is right** iff the newest live key, where
    there is one, has a usable seed: over every life of the keys, whatever has
    become of the seeds and of the keyfile. -/
theorem key_view_iff (env : IssuerEnv) (start : Timestamp) (ops : List KeyServiceOp)
    (seeds : SigningKeyRecord → Sealed) (ring : KeyRing) (loaded now : Timestamp) :
    let db := (run (KeyService.step env) ⟨.fresh start, none⟩ ops).db.withSeeds seeds
    ViewTruthful db (db.freshCache env.scheme ring loaded) now ↔
      NewestUsable env.scheme ring db now :=
  viewTruthful_iff ((run_uniqueKid env start ops).map fun _ => rfl)

/-- The first key, and a second that has activated by 10. -/
def rolledKeys : List KeyServiceOp :=
  [.bootstrap ⟨0⟩ (flatSeed 0), .rotate ⟨1⟩ (some 5) "alice" (flatSeed 1)]

/-- The keyfile has lost the key the seeds are sealed under: a key is reported,
    and none signs.  With only the newer seed damaged, the newer key is reported
    and the older one signs. -/
theorem lost_seed_reported :
    let env : IssuerEnv := ⟨twoKids, ⟨1, [1]⟩, {}⟩
    let db := (run (KeyService.step env) ⟨.fresh ⟨0⟩, none⟩ rolledKeys).db
    let signs := fun (db : Db) (ring : KeyRing) =>
      ((db.freshCache twoKids ring ⟨10⟩).signing ⟨10⟩).map (·.1)
    let damaged := db.withSeeds fun k => if k.kid = "b" then .empty else k.seedSealed
    reportedSigning (db.signingKeyViews ⟨10⟩) = ["b"] ∧ signs db ⟨2, [2]⟩ = none ∧
    ¬ ViewTruthful db (db.freshCache twoKids ⟨2, [2]⟩ ⟨10⟩) ⟨10⟩ ∧
    reportedSigning (damaged.signingKeyViews ⟨10⟩) = ["b"] ∧ signs damaged ⟨1, [1]⟩ = some "a" := by
  decide

end SessionBroker
