/-
  The data of the session state machine (`session.rs`, `token.rs`): the policy,
  identifiers and tokens, generations, and the answers a presented cookie gets.

  * A cookie value and its SHA-256 digest are drawn together: a `SessionToken`
    carries the digest the source computes with `SessionToken::hash`.  That
    distinct draws have distinct digests is a condition on runs, not on tokens;
  * `SessionMeta` is the client hint of a successful login or refresh;
  * `KillReason` and `SessionEvent` are what the event stream announces.
-/
import SessionBroker.Clock

namespace SessionBroker

structure Sid where
  id : String
deriving DecidableEq, Repr

structure CustodyId where
  id : String
deriving DecidableEq, Repr

/-- `SHA-256` of a cookie value, the 32 bytes read as one number. -/
structure TokenHash where
  bits : BitVec 256
deriving DecidableEq, Repr

/-- A cookie value in the clear, with its digest. -/
structure SessionToken where
  value : String
  hash : TokenHash
deriving DecidableEq, Repr

/-- Propagation policy when the upstream refresh grant dies. -/
inductive RevocationPolicy where
  | kill
  | degrade
deriving DecidableEq, Repr

/-- Tunables of the state machine: durations are `u64` seconds, the two sizes
    `usize`. -/
structure SessionPolicy where
  genTtlSecs : ℕ := 600
  graceSecs : ℕ := 60
  coalesceSecs : ℕ := 30
  idleTtlSecs : ℕ := 7 * 24 * 3600
  absoluteTtlSecs : ℕ := 30 * 24 * 3600
  maxLiveGens : ℕ := 4
  retiredMemory : ℕ := 8
  onUpstreamRevoked : RevocationPolicy := .kill
deriving DecidableEq, Repr

/-- The bound of the cap loop, `max_live_gens.max(1)`. -/
def SessionPolicy.cap (policy : SessionPolicy) : ℕ := max policy.maxLiveGens 1

theorem SessionPolicy.cap_pos (policy : SessionPolicy) : 0 < policy.cap := by
  simp [cap]

inductive SessionStatus where
  | alive
  | tombstoned
deriving DecidableEq, Repr

/-- Health of the upstream grant backing a session. -/
inductive CustodyStatus where
  | ok
  | degraded
  | dead
deriving DecidableEq, Repr

/-- `gen_no` is a `u32`. -/
structure Generation where
  genNo : ℕ
  tokenHash : TokenHash
  createdAt : Timestamp
  activeUntil : Timestamp
  supersededAt : Option Timestamp
deriving DecidableEq, Repr

/-- The value a panicking `expect` leaves behind in the model. -/
instance : Inhabited Generation := ⟨⟨0, ⟨0⟩, ⟨0⟩, ⟨0⟩, none⟩⟩

/-- `Generation::resource_valid_until`: the own TTL, and for a superseded
    generation whichever of TTL and grace runs out first. -/
def Generation.resourceValidUntil (g : Generation) (graceSecs : ℕ) : Timestamp :=
  match g.supersededAt with
  | none => g.activeUntil
  | some at_ => min g.activeUntil (at_.plusSecs graceSecs)

theorem Generation.resourceValidUntil_le (g : Generation) (graceSecs : ℕ) :
    g.resourceValidUntil graceSecs ≤ g.activeUntil := by
  unfold resourceValidUntil
  cases g.supersededAt with
  | none => exact le_rfl
  | some => exact min_le_left _ _

/-- Why a token no longer authenticates anything. -/
inductive ExpiredReason where
  | idle
  | absolute
  | loggedOut
  | upstreamRevoked
deriving DecidableEq, Repr

/-- What a presented token means right now. -/
inductive Resolution where
  | unknown
  | active (sid : Sid) (genNo : ℕ) (newest : Bool)
  | staleRefreshable (sid : Sid) (genNo : ℕ)
  | retired (sid : Sid) (genNo : ℕ)
  | hardExpired (sid : Sid) (reason : ExpiredReason)
deriving DecidableEq, Repr

/-- `Resolution::authenticates`. -/
def Resolution.authenticates : Resolution → Bool
  | .active .. => true
  | _ => false

/-- The verdicts a refresh succeeds on. -/
def Resolution.refreshable : Resolution → Bool
  | .active .. | .staleRefreshable .. => true
  | _ => false

/-- Why a refresh was refused. -/
inductive RefreshDenied where
  | unknown
  | retired (sid : Sid) (genNo : ℕ)
  | expired (sid : Sid) (reason : ExpiredReason)
deriving DecidableEq, Repr

/-- The non-secret client hint carried in `broker_meta`. -/
structure SessionMeta where
  v : ℕ
  sub : String
  sid : String
  gen : ℕ
  activeUntil : ℤ
  refreshUntil : ℤ
  absoluteUntil : ℤ
  custody : CustodyStatus
deriving DecidableEq, Repr

/-- The material a successful login or refresh hands back. -/
structure IssuedCookies where
  token : SessionToken
  sessionMeta : SessionMeta
  /-- false when the refresh coalesced onto the existing generation -/
  rotated : Bool
deriving DecidableEq, Repr

/-- One session read back from durable storage at boot. -/
structure RestoredSession where
  sid : Sid
  custody : CustodyId
  sub : String
  currentGen : ℕ
  idleExp : Timestamp
  absoluteExp : Timestamp
  gens : List Generation
deriving DecidableEq, Repr

/-- Why a session was killed. -/
inductive KillReason where
  | loggedOut
  | upstreamRevoked
  | adminRevoked
deriving DecidableEq, Repr

inductive SessionEvent where
  | sessionKilled (sid : Sid) (reason : KillReason)
  | custodyChanged (sid : Sid) (custody : CustodyStatus)
deriving DecidableEq, Repr

/-- `SessionEvent::name`. -/
def SessionEvent.name : SessionEvent → String
  | .sessionKilled .. => "session.killed"
  | .custodyChanged .. => "custody.changed"

/-- `SessionEvent::sid`. -/
def SessionEvent.sid : SessionEvent → Sid
  | .sessionKilled sid _ => sid
  | .custodyChanged sid _ => sid

end SessionBroker
