/-
  One session's entry (`SessionEntry` in `session.rs`) and what a call does to
  it while it holds the entry's lock.

  * `classify` is the verdict on a presented hash;
  * `mint` rotates: it supersedes the current generation, pushes the new one
    and reaps;
  * `reapGenerations` drops the generations that cannot authenticate any more,
    then enforces the hard cap; each dropped one goes through `retire`, whose
    bounded memory purges the oldest hashes;
  * `refresh` is the part of `SessionMap::refresh` between taking and releasing
    the entry lock.
-/
import SessionBroker.Types

namespace SessionBroker

/-- Index maintenance a mutation implies, and its durability record. -/
structure IndexEffects where
  added : Option Generation := none
  /-- the generation a mint superseded, and when -/
  superseded : Option (TokenHash × Timestamp) := none
  purged : List TokenHash := []
deriving DecidableEq, Repr

structure SessionEntry where
  sid : Sid
  custody : CustodyId
  sub : String
  /-- oldest first -/
  gens : List Generation
  currentGen : ℕ
  /-- plaintext of the current generation, memory-only -/
  currentToken : Option SessionToken
  idleExp : Timestamp
  absoluteExp : Timestamp
  status : SessionStatus
  tombstonedAt : Option Timestamp
  custodyStatus : CustodyStatus
  /-- recently retired hashes, newest last -/
  retired : List (TokenHash × ℕ)
deriving DecidableEq, Repr

/-- `cur.superseded_at = Some(now)` on the last generation, if there is one. -/
def supersedeLast (now : Timestamp) : List Generation → List Generation
  | [] => []
  | [g] => [{ g with supersededAt := some now }]
  | g :: h :: gens => g :: supersedeLast now (h :: gens)

/-- The `while` loop of `retire`: pop the front until at most `n` are left. -/
def popFront (n : ℕ) : List (TokenHash × ℕ) → List (TokenHash × ℕ) × List TokenHash
  | [] => ([], [])
  | r :: rs =>
    if n < (r :: rs).length then
      let popped := popFront n rs
      (popped.1, r.1 :: popped.2)
    else (r :: rs, [])

namespace SessionEntry

/-- `SessionEntry::current`; `getLast!` panics on an empty list, as `expect` does. -/
def current (e : SessionEntry) : Generation := e.gens.getLast!

/-- `SessionEntry::session_expiry`: the session-level verdict. -/
def sessionExpiry (e : SessionEntry) (now : Timestamp) (policy : SessionPolicy) :
    Option ExpiredReason :=
  if e.status = .tombstoned then some .loggedOut
  else if e.absoluteExp ≤ now then some .absolute
  else if e.idleExp ≤ now then some .idle
  else if e.custodyStatus = .dead ∧ policy.onUpstreamRevoked = .kill then some .upstreamRevoked
  else none

/-- `SessionEntry::classify`. -/
def classify (e : SessionEntry) (hash : TokenHash) (now : Timestamp) (policy : SessionPolicy) :
    Resolution :=
  match e.sessionExpiry now policy with
  | some reason => .hardExpired e.sid reason
  | none =>
    match e.gens.find? (fun g => g.tokenHash = hash) with
    | some g =>
      if now < g.resourceValidUntil policy.graceSecs then
        .active e.sid g.genNo (g.genNo = e.currentGen)
      else if g.genNo = e.currentGen then .staleRefreshable e.sid g.genNo
      -- still indexed, but denied: reaping is an optimisation, not the semantic
      else .retired e.sid g.genNo
    | none =>
      match e.retired.find? (fun r => r.1 = hash) with
      | some r => .retired e.sid r.2
      | none => .unknown

/-- `SessionEntry::meta`. -/
def sessionMeta (e : SessionEntry) : SessionMeta where
  v := 1
  sub := e.sub
  sid := e.sid.id
  gen := e.currentGen
  activeUntil := e.current.activeUntil.secs
  refreshUntil := e.idleExp.secs
  absoluteUntil := e.absoluteExp.secs
  custody := e.custodyStatus

/-- `SessionEntry::slide`. -/
def slide (e : SessionEntry) (now : Timestamp) (policy : SessionPolicy) : SessionEntry :=
  { e with idleExp := min (now.plusSecs policy.idleTtlSecs) e.absoluteExp }

/-- `SessionEntry::retire`. -/
def retire (e : SessionEntry) (g : Generation) (effects : IndexEffects) (policy : SessionPolicy) :
    SessionEntry × IndexEffects :=
  let popped := popFront policy.retiredMemory (e.retired ++ [(g.tokenHash, g.genNo)])
  ({ e with retired := popped.1 }, { effects with purged := effects.purged ++ popped.2 })

/-- The first loop of `reap_generations` over `gens`: what can no longer
    authenticate is retired, the rest is pushed to `kept`. -/
def reapLoop (now : Timestamp) (policy : SessionPolicy) :
    List Generation → SessionEntry → IndexEffects → List Generation →
      SessionEntry × IndexEffects × List Generation
  | [], e, effects, kept => (e, effects, kept)
  | g :: gens, e, effects, kept =>
    if g.genNo ≠ e.currentGen ∧ g.resourceValidUntil policy.graceSecs ≤ now then
      let r := e.retire g effects policy
      reapLoop now policy gens r.1 r.2 kept
    else reapLoop now policy gens e effects (kept ++ [g])

/-- The cap loop of `reap_generations`: the oldest go first. -/
def capLoop (policy : SessionPolicy) :
    List Generation → SessionEntry → IndexEffects → SessionEntry × IndexEffects
  | [], e, effects => ({ e with gens := [] }, effects)
  | g :: gens, e, effects =>
    if policy.cap < (g :: gens).length then
      let r := e.retire g effects policy
      capLoop policy gens r.1 r.2
    else ({ e with gens := g :: gens }, effects)

/-- `SessionEntry::reap_generations`. -/
def reapGenerations (e : SessionEntry) (now : Timestamp) (policy : SessionPolicy) :
    SessionEntry × IndexEffects :=
  let r := reapLoop now policy e.gens { e with gens := [] } {} []
  capLoop policy r.2.2 r.1 r.2.1

/-- `SessionEntry::mint`, the freshly drawn `token` given.  `current_gen` is a
    `u32`: the increment wraps, as it does in a release build. -/
def mint (e : SessionEntry) (token : SessionToken) (now : Timestamp) (policy : SessionPolicy) :
    SessionEntry × IndexEffects :=
  let superseded := e.gens.getLast?.map fun cur => (cur.tokenHash, now)
  let currentGen := (e.currentGen + 1) % 2 ^ 32
  let gen : Generation := {
    genNo := currentGen
    tokenHash := token.hash
    createdAt := now
    activeUntil := now.plusSecs policy.genTtlSecs
    supersededAt := none }
  let pushed : SessionEntry := { e with
    currentGen
    gens := supersedeLast now e.gens ++ [gen]
    currentToken := some token }
  let r := pushed.reapGenerations now policy
  (r.1, { r.2 with added := some gen, superseded })

/-- `SessionEntry::all_hashes`. -/
def allHashes (e : SessionEntry) : List TokenHash :=
  e.gens.map (·.tokenHash) ++ e.retired.map (·.1)

/-- What `SessionMap::refresh` does under the entry lock, `token` being the
    value a mint would draw: classify, coalesce or mint, slide. -/
def refresh (e : SessionEntry) (hash : TokenHash) (token : SessionToken) (now : Timestamp)
    (policy : SessionPolicy) : Except RefreshDenied (SessionEntry × IssuedCookies × IndexEffects) :=
  match e.classify hash now policy with
  | .unknown => .error .unknown
  | .retired sid genNo => .error (.retired sid genNo)
  | .hardExpired sid reason => .error (.expired sid reason)
  | .active .. | .staleRefreshable .. =>
    let withinCoalesce : Bool := now.since e.current.createdAt < policy.coalesceSecs
    -- without the plaintext (after a restart) coalescing degrades to minting
    match if withinCoalesce then e.currentToken else none with
    | some current =>
      let e' := e.slide now policy
      .ok (e', ⟨current, e'.sessionMeta, false⟩, {})
    | none =>
      let r := e.mint token now policy
      let e' := r.1.slide now policy
      .ok (e', ⟨token, e'.sessionMeta, true⟩, r.2)

/-- The collection rule of `SessionMap::sweep`. -/
def collectible (e : SessionEntry) (now : Timestamp) (policy : SessionPolicy) : Bool :=
  match e.sessionExpiry now policy with
  | some .loggedOut => e.tombstonedAt.any fun at_ => policy.graceSecs ≤ now.since at_
  | some _ => policy.graceSecs ≤ now.since e.idleExp
  | none => false

end SessionEntry

end SessionBroker
