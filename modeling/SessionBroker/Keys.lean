/-
  Signing keys in memory (`issuer/keys.rs`), and the two reads of `store/repo.rs`
  that fill the cache.

  * `age` is the order of `SIGNING_KEY_ORDER`, the place in the table being the
    `rowid`: rows are appended and never deleted;
  * Ed25519 and the digest behind a `kid` are parameters;
  * `signing_build_eq_some`: where every seed is usable, the key that signs is
    the newest one that has activated and is published.
-/
import SessionBroker.Admin
import SessionBroker.Lib.Latest
import Mathlib.Data.Prod.Lex

namespace SessionBroker

open Latest

/-- The functions of the signature scheme that the keys need. -/
structure KeyScheme where
  verifyingKey : Bytes → Bytes
  /-- `kid_of`. -/
  kidOf : Bytes → String

/-- The 32 bytes of a fresh seed. -/
abbrev Seed := {bytes : Bytes // bytes.length = 32}

/-- `generate`, with what the random source returned. -/
def KeyScheme.generate (scheme : KeyScheme) (seed : Seed) : NewSigningKey :=
  ⟨scheme.kidOf (scheme.verifyingKey seed.1), scheme.verifyingKey seed.1, seed.1⟩

/-! ## Reading the table -/

/-- A row with its `rowid`. -/
abbrev KeyedRow := SigningKeyRecord × ℕ

/-- `SIGNING_KEY_ORDER`: `activate_at`, then `created_at`, then `rowid`. -/
def age (r : KeyedRow) : Lex (Timestamp × Lex (Timestamp × ℕ)) :=
  toLex (r.1.activateAt, toLex (r.1.createdAt, r.2))

namespace Db

/-- `list_signing_keys`: removed keys too. -/
def listSigningKeys (db : Db) : List SigningKeyRecord :=
  (newestFirst age db.signingKey.zipIdx).map (·.1)

/-- The seed of a row, where the key ring opens it and it has 32 bytes. -/
def openedSeed (ring : KeyRing) (row : SigningKeyRecord) : Option Bytes :=
  (ring.open row.seedSealed (signingSeedContext row.kid)).filter fun seed => seed.length = 32

/-- `load_signing_keys`. -/
def loadSigningKeys (ring : KeyRing) (db : Db) : List (SigningKeyRecord × Option Bytes) :=
  (newestFirst age (db.signingKey.zipIdx.filter fun r => r.1.removedAt = none)).map fun r =>
    (r.1, openedSeed ring r.1)

end Db

/-! ## The cache -/

/-- `signing` is the seed, where it opened and belongs to the public key. -/
structure CachedKey where
  row : SigningKeyRecord
  signing : Option Bytes
deriving DecidableEq, Repr

/-- `published`. -/
def CachedKey.published (k : CachedKey) (now : Timestamp) : Bool :=
  decide (k.row.removedAt = none) && k.row.retireAt.all fun r => decide (now < r)

structure KeyCache where
  keys : List CachedKey
  loadedAt : Option Timestamp
deriving DecidableEq, Repr

namespace KeyCache

/-- `KeyCache::default`. -/
def empty : KeyCache := ⟨[], none⟩

/-- `build`: the cache, and the kids whose seeds were unusable. -/
def build (scheme : KeyScheme) (rows : List (SigningKeyRecord × Option Bytes)) (now : Timestamp) :
    KeyCache × List String :=
  let keys := rows.map fun (row, seed) =>
    (⟨row, seed.filter fun seed => scheme.verifyingKey seed = row.publicKey⟩ : CachedKey)
  (⟨keys, some now⟩, (keys.filter fun k => k.signing = none).map (·.row.kid))

/-- `signing`: the key that signs at `now`, with its seed. -/
def signing (cache : KeyCache) (now : Timestamp) : Option (String × Bytes) :=
  (cache.keys.filter fun k => decide (k.row.activateAt ≤ now) && k.published now).findSome? fun k =>
    k.signing.map (k.row.kid, ·)

/-- `published`: what a verifier should be able to fetch at `now`. -/
def published (cache : KeyCache) (now : Timestamp) : List SigningKeyRecord :=
  (cache.keys.filter (·.published now)).map (·.row)

end KeyCache

/-! ## What is read off the table -/

/-- The row is published at `t`. -/
def SigningKeyRecord.Published (k : SigningKeyRecord) (t : Timestamp) : Prop := k.outlives t = true

theorem SigningKeyRecord.published_iff {k : SigningKeyRecord} {t : Timestamp} :
    k.Published t ↔ k.removedAt = none ∧ ∀ r, k.retireAt = some r → t < r := by
  cases h : k.retireAt <;> simp [Published, outlives, h]

/-- The row could sign at `t`. -/
def SigningKeyRecord.Live (k : SigningKeyRecord) (t : Timestamp) : Prop :=
  k.activateAt ≤ t ∧ k.Published t

section
variable {scheme : KeyScheme} {ring : KeyRing} {db : Db} {now t : Timestamp}

/-- The seed of a row, where it opens and belongs to the public key. -/
def usableSeed (scheme : KeyScheme) (ring : KeyRing) (k : SigningKeyRecord) : Option Bytes :=
  (Db.openedSeed ring k).filter fun seed => scheme.verifyingKey seed = k.publicKey

/-- What the issuer holds right after a reload. -/
def Db.freshCache (scheme : KeyScheme) (ring : KeyRing) (db : Db) (now : Timestamp) : KeyCache :=
  (KeyCache.build scheme (db.loadSigningKeys ring) now).1

@[simp] theorem freshCache_loadedAt : (db.freshCache scheme ring now).loadedAt = some now := rfl

theorem freshCache_keys : (db.freshCache scheme ring now).keys =
    (newestFirst age (db.signingKey.zipIdx.filter fun r => r.1.removedAt = none)).map
      fun r => ⟨r.1, usableSeed scheme ring r.1⟩ := by
  simp [Db.freshCache, KeyCache.build, Db.loadSigningKeys, usableSeed]

theorem mem_zipIdx_fst {keys : List SigningKeyRecord} {k : SigningKeyRecord} :
    (∃ r ∈ keys.zipIdx, r.1 = k) ↔ k ∈ keys := by
  rw [← List.mem_map, List.zipIdx_map_fst]

theorem cachedKey_published {k : CachedKey} : k.published t = true ↔ k.row.Published t := Iff.rfl

/-- **The published set** right after a reload. -/
theorem mem_published_freshCache {k : SigningKeyRecord} :
    k ∈ (db.freshCache scheme ring now).published t ↔ k ∈ db.signingKey ∧ k.Published t := by
  simp only [KeyCache.published, freshCache_keys, List.mem_map, List.mem_filter, mem_newestFirst,
    cachedKey_published, decide_eq_true_eq]
  constructor
  · rintro ⟨_, ⟨⟨r, ⟨hr, -⟩, rfl⟩, hp⟩, rfl⟩
    exact ⟨mem_zipIdx_fst.1 ⟨r, hr, rfl⟩, hp⟩
  · rintro ⟨hk, hp⟩
    obtain ⟨r, hr, rfl⟩ := mem_zipIdx_fst.2 hk
    exact ⟨_, ⟨⟨r, ⟨hr, (SigningKeyRecord.published_iff.1 hp).1⟩, rfl⟩, hp⟩, rfl⟩

/-- What `signing` does with one row. -/
theorem signing_freshCache : (db.freshCache scheme ring now).signing t =
    (newestFirst age (db.signingKey.zipIdx.filter fun r => r.1.removedAt = none)).findSome? fun r =>
      if decide (r.1.activateAt ≤ t) && r.1.outlives t then
        (usableSeed scheme ring r.1).map (r.1.kid, ·) else none := by
  rw [KeyCache.signing, freshCache_keys, findSome?_filter, List.findSome?_map]
  rfl

/-- **The key that signs** right after a reload: the newest one that could,
    where every seed is usable. -/
theorem signing_eq_some {kid : String} {seed : Bytes}
    (hu : ∀ k ∈ db.signingKey, (usableSeed scheme ring k).isSome)
    (h : (db.freshCache scheme ring now).signing t = some (kid, seed)) :
    ∃ r ∈ db.signingKey.zipIdx, r.1.kid = kid ∧ r.1.Live t ∧
      ∀ r' ∈ db.signingKey.zipIdx, r'.1.Live t → age r' ≤ age r := by
  rw [signing_freshCache] at h
  obtain ⟨r, hr, hf, hmax⟩ := findSome?_newestFirst h
  split_ifs at hf with hlive
  obtain ⟨_, -, he⟩ := Option.map_eq_some_iff.1 hf
  cases he
  rw [Bool.and_eq_true, decide_eq_true_eq] at hlive
  refine ⟨r, (List.mem_filter.1 hr).1, rfl, hlive, fun r' hr' hlive' => hmax r' ?_ ?_⟩
  · exact List.mem_filter.2 ⟨hr', by simpa using (SigningKeyRecord.published_iff.1 hlive'.2).1⟩
  · rw [if_pos (by rw [Bool.and_eq_true, decide_eq_true_eq]; exact hlive'), Option.isSome_map]
    exact hu _ (mem_zipIdx_fst.1 ⟨r', hr', rfl⟩)

theorem signing_isSome (hu : ∀ k ∈ db.signingKey, (usableSeed scheme ring k).isSome) :
    ((db.freshCache scheme ring now).signing t).isSome ↔ ∃ k ∈ db.signingKey, k.Live t := by
  rw [signing_freshCache, findSome?_newestFirst_isSome]
  constructor
  · rintro ⟨r, hr, hs⟩
    split_ifs at hs with hlive
    · rw [Bool.and_eq_true, decide_eq_true_eq] at hlive
      exact ⟨r.1, mem_zipIdx_fst.1 ⟨r, (List.mem_filter.1 hr).1, rfl⟩, hlive⟩
    · cases hs
  · rintro ⟨k, hk, hlive⟩
    obtain ⟨r, hr, rfl⟩ := mem_zipIdx_fst.2 hk
    refine ⟨r, List.mem_filter.2 ⟨hr, ?_⟩, ?_⟩
    · simpa using (SigningKeyRecord.published_iff.1 hlive.2).1
    · rw [if_pos (by rw [Bool.and_eq_true, decide_eq_true_eq]; exact hlive), Option.isSome_map]
      exact hu _ hk

end

end SessionBroker
